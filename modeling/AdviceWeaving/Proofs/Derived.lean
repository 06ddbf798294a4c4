import AdviceWeaving.Proofs.Derivable

/-!
# What is read is derivable

`Rule.Takes p L` says that the rule `p` reads a value `a` only from tokens `us` with `L us a`.  For each rule, `L` is
what its trees derive, and so a module is read only from tokens that a tree of a module derives, with the module as
its value (`Rule.takes_module`).  What a rule finds when it looks ahead does not matter here.
-/

namespace AdviceWeaving

namespace Rule

variable {α β : Type}

/-- What the rule reads, it reads from tokens that are related to it. -/
def Takes (p : Rule α) (L : List Token → α → Prop) : Prop :=
  ∀ ts a rest, (p ts).read? = some (a, rest) → ∃ front, ts = front ++ rest ∧ L (front.map (·.token)) a

section

variable {p : Rule α} {f : α → Rule β} {L : List Token → α → Prop} {M : List Token → β → Prop}

private theorem takes_pure {a : α} (h : L [] a) : Takes (pure a) L := by
  intro ts b rest hread
  cases hread
  exact ⟨[], rfl, h⟩

private theorem takes_fail {fault : ParseFault} : Takes (fail fault : Rule α) L := by
  intro ts a rest hread
  cases hread

private theorem takes_unexpected : Takes (unexpected : Rule α) L := by
  intro ts a rest hread
  cases hread

private theorem Takes.bind (hp : Takes p L) (hf : ∀ a us, L us a → Takes (f a) fun vs => M (us ++ vs)) :
    Takes (p >>= f) M := by
  intro ts b rest hread
  rw [read?_bind] at hread
  obtain ⟨⟨a, mid⟩, ha, hb⟩ := Option.bind_eq_some_iff.1 hread
  obtain ⟨front, rfl, hL⟩ := hp ts a mid ha
  obtain ⟨front', rfl, hM⟩ := hf a _ hL mid b rest hb
  exact ⟨front ++ front', by rw [List.append_assoc], by rwa [List.map_append]⟩

private theorem Takes.imp {L' : List Token → α → Prop} (hp : Takes p L) (h : ∀ us a, L us a → L' us a) : Takes p L' :=
  fun ts a rest hread => (hp ts a rest hread).imp fun _ hfront => ⟨hfront.1, h _ a hfront.2⟩

private theorem takes_token {f : Token → Option α} (h : ∀ t a, f t = some a → L [t] a) : Takes (token f) L := by
  rintro (_ | ⟨t, ts⟩) a rest hread
  · cases hread
  rw [read?_token] at hread
  obtain ⟨b, hb, heq⟩ := Option.map_eq_some_iff.1 hread
  cases heq
  exact ⟨[t], rfl, h t.token a hb⟩

private theorem takes_exactly (t : Token) : Takes (exactly t) fun us _ => us = [t] :=
  takes_token fun u _ h => by
    split at h
    next hu => rw [hu]
    · cases h

private theorem takes_mark (m : Mark) : Takes (mark m) fun us _ => us = [.mark m] :=
  takes_exactly (.mark m)

private theorem takes_optional (t : Token) : Takes (optional t) fun us there => us = if there then [t] else [] := by
  rintro (_ | ⟨u, ts⟩) there rest hread
  · cases hread
    exact ⟨[], rfl, rfl⟩
  rw [read?_optional] at hread
  split at hread
  next hu =>
    cases hread
    exact ⟨[u], rfl, congrArg ([·]) hu⟩
  · cases hread
    exact ⟨[], rfl, rfl⟩

private theorem takes_peek : Takes peek fun us _ => us = [] := by
  intro ts a rest hread
  cases hread
  exact ⟨[], rfl, rfl⟩

private theorem takes_path : Takes path fun us name => us = [.path name] :=
  takes_token fun t name h => by
    cases t with
    | path name' =>
      cases h
      rfl
    | _ => cases h

/-- A value that is read behind one more token. -/
private theorem Takes.startingWith {f : Lexeme → Rule α} (h : ∀ t, Takes (f t) fun us => L (t.token :: us)) :
    Takes (startingWith f) L := by
  rintro (_ | ⟨t, ts⟩) a rest hread
  · cases hread
  rw [read?_startingWith] at hread
  obtain ⟨front, rfl, hL⟩ := h t ts a rest hread
  exact ⟨t :: front, rfl, hL⟩

end

/-! ### Loops -/

/-- A loop stops, or it reads one value and goes on. -/
private theorem takes_loop {loop : Rule (List α)} {N : List Token → List α → Prop}
    (h : ∀ ts as rest, (loop ts).read? = some (as, rest) →
      (∃ front, ts = front ++ rest ∧ N (front.map (·.token)) as) ∨
      ∃ front mid a more, ts = front ++ mid ∧ front ≠ [] ∧ (loop mid).read? = some (more, rest) ∧
        as = a :: more ∧ ∀ us, N us more → N (front.map (·.token) ++ us) as) : Takes loop N := by
  intro ts as rest hread
  obtain hstop | ⟨front, mid, a, more, hts, hne, hmore, has, hN⟩ := h ts as rest hread
  · exact hstop
  · have hlt : mid.length < ts.length := by
      have hpos := List.length_pos_iff.2 hne
      rw [hts, List.length_append]
      omega
    obtain ⟨front', rfl, hN'⟩ := takes_loop h mid more rest hmore
    exact ⟨front ++ front', by rw [hts, List.append_assoc], by
      rw [List.map_append]
      exact hN _ hN'⟩
termination_by ts => ts.length

/-- What a loop that goes on reads: a value, and further ones. -/
private theorem exists_of_more {p : Rule α} {loop : Rule (List α)} {L : List Token → α → Prop} (hp : Takes p L)
    {us rest : List Lexeme} {as : List α}
    (hread : ((p us).read?.bind fun found =>
      (loop found.2).read?.map fun more => (found.1 :: more.1, more.2)) = some (as, rest)) :
    ∃ front mid a more, us = front ++ mid ∧ L (front.map (·.token)) a ∧ (loop mid).read? = some (more, rest) ∧
      as = a :: more := by
  obtain ⟨⟨a, mid⟩, ha, hloop⟩ := Option.bind_eq_some_iff.1 hread
  obtain ⟨⟨more, rest'⟩, hmore, heq⟩ := Option.map_eq_some_iff.1 hloop
  cases heq
  obtain ⟨front, hus, hL⟩ := hp us a mid ha
  exact ⟨front, mid, a, more, hus, hL, hmore, rfl⟩

/-- The trees with the given tokens and the given value. -/
def Derived {δ : Type} (tokens : δ → List Token) (value : δ → α) (us : List Token) (a : α) : Prop :=
  ∃ d, tokens d = us ∧ value d = a

section

variable {δ : Type} {item : Rule α} {tokens : δ → List Token} {value : δ → α}

private theorem takes_furtherItems (hitem : Takes item (Derived tokens value)) :
    Takes (furtherItems item) (Derived (fun ds : List δ => furtherTokens (ds.map tokens)) (·.map value)) := by
  refine takes_loop fun ts as rest hread => ?_
  cases ts with
  | nil =>
    rw [furtherItems] at hread
    cases hread
  | cons t ts =>
    rw [read?_furtherItems] at hread
    split at hread
    next ht =>
      cases hread
      exact .inl ⟨[t], rfl, [], by simp [furtherTokens, ht], rfl⟩
    split at hread
    next ht =>
      obtain ⟨front, mid, _, more, rfl, ⟨d, hd, rfl⟩, hmore, rfl⟩ := exists_of_more hitem hread
      refine .inr ⟨t :: front, mid, _, more, rfl, List.cons_ne_nil _ _, hmore, rfl, ?_⟩
      rintro _ ⟨ds, rfl, rfl⟩
      exact ⟨d :: ds, by simp [furtherTokens, ht, hd], rfl⟩
    · cases hread

private theorem takes_parenthesized (hitem : Takes item (Derived tokens value)) :
    Takes (parenthesized item) (Derived (fun ds : List δ => parenTokens (ds.map tokens)) (·.map value)) := by
  refine (takes_mark _).bind fun _ _ hopen => (takes_optional _).bind fun closed _ hclose => ?_
  subst hopen hclose
  cases closed with
  | true => exact takes_pure ⟨[], rfl, rfl⟩
  | false =>
    refine hitem.bind fun _ _ ⟨d, hd, hvalue⟩ => (takes_furtherItems hitem).bind fun _ _ ⟨ds, hds, hvalues⟩ => ?_
    subst hd hvalue hds hvalues
    exact takes_pure ⟨d :: ds, by simp [parenTokens, itemTokens], rfl⟩

end

/-! ### References -/

private theorem takes_name : Takes memberName (Derived ([·.token]) NameTree.value) :=
  takes_token fun t name h => by
    cases t with
    | path name' =>
      cases h
      exact ⟨.path name, rfl, rfl⟩
    | ctor c =>
      cases h
      exact ⟨.ctor c, rfl, rfl⟩
    | _ => cases h

private theorem takes_typeName : Takes valueType (Derived ([.path ·]) ValueType.ofName) :=
  takes_path.bind fun name _ h => takes_pure ⟨name, by rw [h]; rfl, rfl⟩

private theorem takes_typeList : Takes (parenthesized valueType) (Derived typeListTokens (·.map ValueType.ofName)) :=
  takes_parenthesized takes_typeName

private theorem takes_fieldSig : Takes fieldSig (Derived FieldTree.tokens FieldTree.value) :=
  takes_path.bind fun
  | declaring, _, rfl => (takes_mark _).bind fun
  | _, _, rfl => takes_name.bind fun
  | _, _, ⟨name, rfl, rfl⟩ => (takes_mark _).bind fun
  | _, _, rfl => takes_typeName.bind fun
  | _, _, ⟨type, rfl, rfl⟩ => takes_pure ⟨⟨declaring, name, type⟩, rfl, rfl⟩

private theorem takes_methodSig : Takes methodSig (Derived MethodTree.tokens MethodTree.value) :=
  (takes_optional _).bind fun
  | onInstance, _, rfl => takes_path.bind fun
  | declaring, _, rfl => (takes_mark _).bind fun
  | _, _, rfl => takes_name.bind fun
  | _, _, ⟨name, rfl, rfl⟩ => takes_typeList.bind fun
  | _, _, ⟨params, rfl, rfl⟩ => (takes_mark _).bind fun
  | _, _, rfl => takes_typeName.bind fun
  | _, _, ⟨ret, rfl, rfl⟩ => takes_pure ⟨⟨onInstance, declaring, name, params, ret⟩, rfl, rfl⟩

/-! ### Attributes -/

private theorem takes_argument : Takes argument (Derived ([·.token]) id) :=
  takes_token fun t x h => by
    cases t with
    | int | string | path =>
      cases h
      exact ⟨_, rfl, rfl⟩
    | _ => cases h

/-- An attribute behind its opening bracket. -/
private theorem takes_attributeBody : Takes attributeBody (Derived (·.tokens.tail) AttributeTree.value) := by
  refine takes_path.bind fun name _ hname => takes_peek.bind fun next _ hnext => ?_
  subst hname hnext
  split
  · exact (takes_parenthesized takes_argument).bind fun
      | _, _, ⟨args, rfl, rfl⟩ => (takes_mark _).bind fun
      | _, _, rfl => takes_pure ⟨⟨name, some args⟩, rfl, by simp [AttributeTree.value]⟩
  · exact (takes_pure (L := fun us args => us = [] ∧ args = []) ⟨rfl, rfl⟩).bind fun
      | _, _, ⟨rfl, rfl⟩ => (takes_mark _).bind fun
      | _, _, rfl => takes_pure ⟨⟨name, none⟩, rfl, rfl⟩

private theorem takes_attributes :
    Takes attributes (Derived (fun ds : List AttributeTree => ds.flatMap (·.tokens)) (·.map (·.value))) := by
  refine takes_loop fun ts as rest hread => ?_
  cases ts with
  | nil =>
    rw [attributes] at hread
    cases hread
    exact .inl ⟨[], rfl, [], rfl, rfl⟩
  | cons t ts =>
    rw [read?_attributes] at hread
    split at hread
    next ht =>
      obtain ⟨front, mid, _, more, rfl, ⟨d, hd, rfl⟩, hmore, rfl⟩ := exists_of_more takes_attributeBody hread
      refine .inr ⟨t :: front, mid, _, more, rfl, List.cons_ne_nil _ _, hmore, rfl, ?_⟩
      rintro _ ⟨ds, rfl, rfl⟩
      have htokens : d.tokens = t.token :: front.map (·.token) := by
        rw [← hd, ht]
        rfl
      exact ⟨d :: ds, by simp [htokens], rfl⟩
    · cases hread
      exact .inl ⟨[], rfl, [], rfl, rfl⟩

/-! ### Bodies -/

theorem takes_operand (kind : OperandKind) :
    Takes (operand kind) (Derived (OperandTree.tokens : OperandTree kind → List Token) OperandTree.value) := by
  cases kind with
  | none => exact takes_pure ⟨.none, rfl, rfl⟩
  | field =>
    exact takes_fieldSig.bind fun
    | _, _, ⟨sig, rfl, rfl⟩ => takes_pure ⟨.field sig, by simp [OperandTree.tokens], rfl⟩
  | method =>
    exact takes_methodSig.bind fun
    | _, _, ⟨sig, rfl, rfl⟩ => takes_pure ⟨.method sig, by simp [OperandTree.tokens], rfl⟩
  | label => exact takes_path.bind fun | name, _, rfl => takes_pure ⟨.label name, rfl, rfl⟩
  | string =>
    rw [operand]
    refine takes_token fun t s h => ?_
    cases t with
    | string value =>
      cases h
      exact ⟨.string value, rfl, rfl⟩
    | _ => cases h
  | int32 | int64 | index =>
    rw [operand]
    refine takes_token fun t s h => ?_
    cases t with
    | int value =>
      cases h
      first
      | exact ⟨.int32 value, rfl, rfl⟩
      | exact ⟨.int64 value, rfl, rfl⟩
      | exact ⟨.index value, rfl, rfl⟩
    | _ => cases h

/-- A line with a label, behind the colon. -/
private theorem takes_labelledLine (label : String) : Takes (labelledLine label) fun us l =>
    Derived LineTree.tokens LineTree.value (.path label :: .mark .colon :: us) l := by
  intro ts l rest hread
  unfold labelledLine at hread
  split at hread
  next word span ts =>
    rw [Outcome.read?_behind] at hread
    split at hread
    · cases hread
    next kind hkind =>
      split at hread
      · have hline : Takes (Line.mk (some label) word <$> operand kind) fun us l =>
            Derived LineTree.tokens LineTree.value (.path label :: .mark .colon :: .path word :: us) l :=
          (takes_operand kind).bind fun
          | _, _, ⟨d, rfl, rfl⟩ => takes_pure ⟨⟨some label, word, kind, hkind, d⟩, by simp [LineTree.tokens], rfl⟩
        obtain ⟨front, rfl, hl⟩ := hline ts l rest hread
        exact ⟨⟨.path word, span⟩ :: front, rfl, hl⟩
      · cases hread
  · cases hread

/-- A line behind its first word. -/
private theorem takes_line (word : String) :
    Takes (line word) fun us l => Derived LineTree.tokens LineTree.value (.path word :: us) l := by
  refine (takes_optional _).bind fun labelled _ hlabelled => ?_
  subst hlabelled
  cases labelled with
  | true => exact takes_labelledLine word
  | false =>
    simp only [Bool.false_eq_true, if_false]
    split
    next kind hkind =>
      exact (takes_operand kind).bind fun
      | _, _, ⟨d, rfl, rfl⟩ => takes_pure ⟨⟨none, word, kind, hkind, d⟩, by simp [LineTree.tokens], rfl⟩
    · exact takes_unexpected

private theorem takes_lines : Takes lines (Derived BodyTree.linesTokens (·.map (·.value))) := by
  refine takes_loop fun ts ls rest hread => ?_
  have hread' := hread
  rw [lines.eq_def] at hread'
  split at hread'
  next span ts =>
    rw [read?_lines_close] at hread
    cases hread
    exact .inl ⟨[⟨.mark .closeBrace, span⟩], rfl, [], rfl, rfl⟩
  next word span ts =>
    rw [read?_lines_path] at hread
    obtain ⟨front, mid, _, more, rfl, ⟨d, hd, rfl⟩, hmore, rfl⟩ := exists_of_more (takes_line word) hread
    refine .inr ⟨⟨.path word, span⟩ :: front, mid, _, more, rfl, List.cons_ne_nil _ _, hmore, rfl, ?_⟩
    rintro _ ⟨ds, rfl, rfl⟩
    exact ⟨d :: ds, by simp [BodyTree.linesTokens, hd], rfl⟩
  · cases hread'

/-- A body behind its locals, and the rule `k` that makes the body of its lines, if they resolve. -/
private theorem takes_behindLocals (locals : Option (List String)) {k : Bool → List Line → Rule Body}
    (hok : ∀ initLocals ls code, resolve ls = .ok code → k initLocals ls =
      pure { locals := ((locals.getD []).map .ofName).toArray, initLocals, code })
    (hfault : ∀ initLocals ls fault, resolve ls = .error fault → ∃ e, k initLocals ls = fail e) :
    Takes (optional (.directive .initLocals) >>= fun initLocals => lines >>= k initLocals) fun us body =>
      ∃ d : BodyTree, d.locals = locals ∧
        (if d.initLocals then [.directive .initLocals] else []) ++ BodyTree.linesTokens d.lines = us ∧
          d.value = some body := by
  refine (takes_optional _).bind fun initLocals _ hinit => takes_lines.bind fun _ _ ⟨ls, hls, hvalue⟩ => ?_
  subst hinit hls hvalue
  cases hcode : resolve (ls.map (·.value)) with
  | ok code =>
    rw [hok initLocals _ code hcode]
    exact takes_pure ⟨⟨locals, initLocals, ls⟩, rfl, by simp, by simp [BodyTree.value, hcode, Except.toOption]⟩
  | error fault =>
    obtain ⟨e, he⟩ := hfault initLocals _ fault hcode
    rw [he]
    exact takes_fail

/-- A body behind its opening brace. -/
private theorem takes_bodyFrom (brace : Span) :
    Takes (bodyFrom brace) fun us body => ∃ d : BodyTree, d.rest = us ∧ d.value = some body := by
  refine (takes_optional _).bind fun there _ hthere => ?_
  subst hthere
  cases there with
  | true =>
    refine takes_typeList.bind fun _ _ ⟨types, htypes, hvalue⟩ => ?_
    subst htypes hvalue
    refine (takes_behindLocals (some types) (fun _ _ code hcode => ?_) fun _ _ fault hfault => ?_).imp
      fun _ _ ⟨d, hlocals, htokens, hvalue⟩ => ⟨d, by simp [BodyTree.rest, hlocals, htokens], hvalue⟩
    · simp [hcode]
    · exact ⟨.unresolved brace fault, by simp [hfault]⟩
  | false =>
    refine (takes_pure (L := fun us types => us = [] ∧ types = []) ⟨rfl, rfl⟩).bind fun _ _ ⟨hnil, hnone⟩ => ?_
    subst hnil hnone
    refine (takes_behindLocals none (fun _ _ code hcode => ?_) fun _ _ fault hfault => ?_).imp
      fun _ _ ⟨d, hlocals, htokens, hvalue⟩ => ⟨d, by simp [BodyTree.rest, hlocals, htokens], hvalue⟩
    · simp [hcode]
    · exact ⟨.unresolved brace fault, by simp [hfault]⟩

/-! ### Members -/

private theorem takes_nameAndType : Takes nameAndType (Derived (fun x : String × String => namedTokens x.1 x.2)
    fun x => (x.1, ValueType.ofName x.2)) :=
  takes_path.bind fun
  | name, _, rfl => (takes_mark _).bind fun
  | _, _, rfl => takes_typeName.bind fun
  | _, _, ⟨type, rfl, rfl⟩ => takes_pure ⟨(name, type), rfl, rfl⟩

private theorem takes_param : Takes param (Derived ParamTree.tokens ParamTree.value) :=
  takes_attributes.bind fun
  | _, _, ⟨attributes, rfl, rfl⟩ => takes_nameAndType.bind fun
  | _, _, ⟨(name, type), rfl, rfl⟩ => takes_pure ⟨⟨attributes, name, type⟩, by simp [ParamTree.tokens], rfl⟩

private theorem takes_bodyOrNone : Takes bodyOrNone fun us body =>
    ∃ d : Option BodyTree, d.elim [.mark .semicolon] (·.tokens) = us ∧
      DeclarationTree.bodyValue d = some body := by
  intro ts body rest hread
  unfold bodyOrNone at hread
  split at hread
  next span ts =>
    cases hread
    exact ⟨[⟨.mark .semicolon, span⟩], rfl, none, rfl, rfl⟩
  next brace ts =>
    rw [Outcome.read?_behind, Outcome.read?_withValue] at hread
    obtain ⟨⟨b, rest'⟩, hb, heq⟩ := Option.map_eq_some_iff.1 hread
    cases heq
    obtain ⟨front, rfl, d, hd, hvalue⟩ := takes_bodyFrom brace ts b _ hb
    exact ⟨⟨.mark .openBrace, brace⟩ :: front, rfl, some d, by simp [BodyTree.tokens, hd],
      by simp [DeclarationTree.bodyValue, hvalue]⟩
  · cases hread

section

variable {attributes : List Attribute}

/-- A field behind its keyword, with what is declared in front of it. -/
private theorem takes_fieldFrom (access : Access) (isStatic : Bool) :
    Takes (fieldFrom access isStatic attributes) fun us a => ∃ name type, namedTokens name type = us ∧
      .field { name, type := .ofName type, access, isStatic, attributes } = a :=
  takes_nameAndType.bind fun
  | _, _, ⟨(name, type), rfl, rfl⟩ => takes_pure ⟨name, type, by simp, rfl⟩

private theorem takes_methodFrom (access : Access) (isStatic : Bool) :
    Takes (methodFrom access isStatic attributes) fun us a => ∃ name params ret body b,
      DeclarationTree.methodTokens name params ret body = us ∧ DeclarationTree.bodyValue body = some b ∧
      .method
        { name := name.value, access, isStatic, params := params.map (·.value), ret := .ofName ret, attributes
          body := b } = a :=
  takes_name.bind fun
  | _, _, ⟨name, rfl, rfl⟩ => (takes_parenthesized takes_param).bind fun
  | _, _, ⟨params, rfl, rfl⟩ => (takes_mark _).bind fun
  | _, _, rfl => takes_typeName.bind fun
  | _, _, ⟨ret, rfl, rfl⟩ => takes_bodyOrNone.bind fun
  | b, _, ⟨body, rfl, hb⟩ => takes_pure ⟨name, params, ret, body, b,
      by simp [DeclarationTree.methodTokens], hb, rfl⟩

/-- A declaration with the modifiers `access?` and `isStatic`. -/
private theorem takes_fieldOrMethod (access? : Option Access) (isStatic : Bool) :
    Takes (fieldOrMethod (access?.getD .priv) isStatic attributes) fun us a => ∃ d : DeclarationTree,
      d.tokens = DeclarationTree.modifiers access? isStatic ++ us ∧ d.value attributes = some a := by
  refine (takes_token (L := fun us isField => us = [.keyword (if isField then .field else .method)])
    fun t isField h => ?_).bind fun isField _ hword => ?_
  · split at h <;> cases h <;> rfl
  · subst hword
    cases isField with
    | true => exact (takes_fieldFrom _ _).imp fun _ _ ⟨name, type, htokens, hvalue⟩ =>
        ⟨.field access? isStatic name type, by simp [DeclarationTree.tokens, htokens], congrArg some hvalue⟩
    | false => exact (takes_methodFrom _ _).imp fun _ _ ⟨name, params, ret, body, b, htokens, hb, hvalue⟩ =>
        ⟨.method access? isStatic name params ret body, by simp [DeclarationTree.tokens, htokens],
          by simp [DeclarationTree.value, hb, hvalue]⟩

private theorem takes_memberFrom (t : Lexeme) : Takes (memberFrom attributes t) fun us a =>
    ∃ d : DeclarationTree, d.tokens = t.token :: us ∧ d.value attributes = some a := by
  have hmaybe (access : Access) : Takes (maybeStatic access attributes) fun us a =>
      ∃ d : DeclarationTree, d.tokens = .keyword access.keyword :: us ∧ d.value attributes = some a :=
    (takes_optional _).bind fun
    | isStatic, _, rfl => (takes_fieldOrMethod (some access) isStatic).imp fun _ _ ⟨d, htokens, hvalue⟩ =>
        ⟨d, by simp [htokens, DeclarationTree.modifiers], hvalue⟩
  obtain ⟨token, span⟩ := t
  unfold memberFrom
  split
  next h =>
    obtain rfl : token = _ := h
    exact takes_nameAndType.bind fun
    | _, _, ⟨(name, type), rfl, rfl⟩ => takes_pure ⟨.property name type, by simp [DeclarationTree.tokens], rfl⟩
  next h =>
    obtain rfl : token = _ := h
    exact hmaybe .pub
  next h =>
    obtain rfl : token = _ := h
    exact hmaybe .priv
  next h =>
    obtain rfl : token = _ := h
    exact takes_fieldOrMethod none true
  next h =>
    obtain rfl : token = _ := h
    exact (takes_fieldFrom _ _).imp fun _ _ ⟨name, type, htokens, hvalue⟩ =>
      ⟨.field none false name type, by simp [DeclarationTree.tokens, DeclarationTree.modifiers, htokens],
        congrArg some hvalue⟩
  next h =>
    obtain rfl : token = _ := h
    exact (takes_methodFrom _ _).imp fun _ _ ⟨name, params, ret, body, b, htokens, hb, hvalue⟩ =>
      ⟨.method none false name params ret body,
        by simp [DeclarationTree.tokens, DeclarationTree.modifiers, htokens],
        by simp [DeclarationTree.value, hb, ← hvalue]⟩
  · exact takes_fail

end

private theorem takes_member : Takes member fun us a => ∃ d : MemberTree, d.tokens = us ∧ d.value = some a :=
  takes_attributes.bind fun
  | _, _, ⟨attributes, rfl, rfl⟩ => Takes.startingWith fun t =>
      (takes_memberFrom t).imp fun _ _ ⟨d, htokens, hvalue⟩ =>
        ⟨⟨attributes, d⟩, by simp [MemberTree.tokens, htokens], hvalue⟩

private theorem takes_members : Takes members fun us as =>
    ∃ ds, TypeTree.membersTokens ds = us ∧ ds.mapM MemberTree.value = some as := by
  refine takes_loop fun ts as rest hread => ?_
  cases ts with
  | nil =>
    rw [members] at hread
    cases hread
  | cons t ts =>
    rw [read?_members] at hread
    split at hread
    next ht =>
      cases hread
      exact .inl ⟨[t], rfl, [], by simp [TypeTree.membersTokens, ht], rfl⟩
    · obtain ⟨front, mid, a, more, hts, ⟨d, hd, ha⟩, hmore, rfl⟩ := exists_of_more takes_member hread
      have hstart : startsOther (.mark .closeBrace) d.tokens :=
        startsOther_attributes (by decide) (startsOther_declaration d.declaration)
      have hne : front ≠ [] := by
        rintro rfl
        rw [hd] at hstart
        cases hstart
      refine .inr ⟨front, mid, a, more, hts, hne, hmore, rfl, ?_⟩
      rintro _ ⟨ds, rfl, hds⟩
      exact ⟨d :: ds, by simp [TypeTree.membersTokens, hd], by simp [ha, hds]⟩

/-! ### Types and modules -/

private theorem takes_typeBody (kind : TypeKind) (attributes : List AttributeTree) :
    Takes (typeBody kind (attributes.map (·.value))) fun us t => ∃ d : TypeTree,
      d.tokens = attributes.flatMap (·.tokens) ++ .keyword kind.keyword :: us ∧ d.value = some t := by
  refine takes_path.bind fun name _ hname => (takes_optional _).bind fun there _ hthere => ?_
  subst hname hthere
  have hrest (base : Option String) : Takes (do
      mark .openBrace
      return typeOf name kind base (attributes.map (·.value)) (← members))
      fun us t => ∃ ms, .mark .openBrace :: TypeTree.membersTokens ms = us ∧
        (TypeTree.mk attributes kind name base ms).value = some t :=
    (takes_mark _).bind fun
    | _, _, rfl => takes_members.bind fun
    | _, _, ⟨ms, rfl, hms⟩ => takes_pure ⟨ms, by simp, by simp [TypeTree.value, hms]⟩
  cases there with
  | true =>
    have hbase : Takes (some <$> path) fun us base => ∃ name, us = [.path name] ∧ base = some name :=
      takes_path.bind fun | name, _, rfl => takes_pure ⟨name, rfl, rfl⟩
    refine hbase.bind fun | _, _, ⟨base, rfl, rfl⟩ => ?_
    exact (hrest (some base)).imp fun _ _ ⟨ms, htokens, hvalue⟩ =>
      ⟨⟨attributes, kind, name, some base, ms⟩, by simp [TypeTree.tokens, TypeTree.rest, htokens], hvalue⟩
  | false =>
    refine (takes_pure (L := fun us base => us = [] ∧ base = none) ⟨rfl, rfl⟩).bind fun | _, _, ⟨rfl, rfl⟩ => ?_
    exact (hrest none).imp fun _ _ ⟨ms, htokens, hvalue⟩ =>
      ⟨⟨attributes, kind, name, none, ms⟩, by simp [TypeTree.tokens, TypeTree.rest, htokens], hvalue⟩

private theorem takes_typeDecl : Takes typeDecl fun us t => ∃ d : TypeTree, d.tokens = us ∧ d.value = some t := by
  refine takes_attributes.bind fun | _, _, ⟨attributes, rfl, rfl⟩ => Takes.startingWith fun ⟨token, span⟩ => ?_
  unfold typeFrom
  split
  next h =>
    obtain rfl : token = _ := h
    exact takes_typeBody .classType attributes
  next h =>
    obtain rfl : token = _ := h
    exact takes_typeBody .interfaceType attributes
  · exact takes_fail

private theorem takes_types : Takes types fun us ts =>
    ∃ ds : List TypeTree, ds.flatMap (·.tokens) = us ∧ ds.mapM TypeTree.value = some ts := by
  refine takes_loop fun ts as rest hread => ?_
  cases ts with
  | nil =>
    rw [types] at hread
    cases hread
    exact .inl ⟨[], rfl, [], rfl, rfl⟩
  | cons t ts =>
    rw [read?_types] at hread
    obtain ⟨front, mid, a, more, hts, ⟨d, hd, ha⟩, hmore, rfl⟩ := exists_of_more takes_typeDecl hread
    have hne : front ≠ [] := by
      rintro rfl
      simp [TypeTree.tokens] at hd
    refine .inr ⟨front, mid, a, more, hts, hne, hmore, rfl, ?_⟩
    rintro _ ⟨ds, rfl, hds⟩
    exact ⟨d :: ds, by simp [hd], by simp [ha, hds]⟩

/-- Types are read to the end. -/
private theorem rest_of_read?_types {us rest : List Lexeme} {ts : List TypeDecl}
    (hread : (types us).read? = some (ts, rest)) : rest = [] := by
  cases us with
  | nil =>
    rw [types] at hread
    cases hread
    rfl
  | cons u us =>
    rw [read?_types] at hread
    obtain ⟨front, mid, t, more, hus, ⟨d, hd, -⟩, hmore, -⟩ := exists_of_more takes_typeDecl hread
    have hlt : mid.length < (u :: us).length := by
      have hlength := congrArg List.length hd
      simp only [TypeTree.tokens, List.length_append, List.length_cons, List.length_map] at hlength
      rw [hus, List.length_append]
      omega
    exact rest_of_read?_types hmore
termination_by us.length

/-- A module is read only from the tokens of a module. -/
theorem takes_module : Takes module fun us m => ∃ d : ModuleTree, d.tokens = us ∧ d.value = some m :=
  (takes_exactly _).bind fun
  | _, _, rfl => takes_path.bind fun
  | name, _, rfl => takes_types.bind fun
  | _, _, ⟨ds, rfl, hds⟩ => takes_pure ⟨⟨name, ds⟩, by simp [ModuleTree.tokens], by simp [ModuleTree.value, hds]⟩

theorem rest_of_read?_module {us rest : List Lexeme} {m : Module} (hread : (module us).read? = some (m, rest)) :
    rest = [] := by
  simp only [module, read?_bind] at hread
  obtain ⟨_, _, hread⟩ := Option.bind_eq_some_iff.1 hread
  obtain ⟨_, _, hread⟩ := Option.bind_eq_some_iff.1 hread
  obtain ⟨⟨ts, us'⟩, htypes, hread⟩ := Option.bind_eq_some_iff.1 hread
  cases hread
  exact rest_of_read?_types htypes

end Rule

end AdviceWeaving
