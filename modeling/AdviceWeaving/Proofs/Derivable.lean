import AdviceWeaving.Proofs.Derivations
import AdviceWeaving.Proofs.Rules

/-!
# What is derivable is read

The rules read the tokens of a derivation tree as its value, whatever stands behind them (`Rule.gives_body`,
`Rule.gives_memberTree`), and the tokens of a module as a whole (`Rule.read?_moduleTree`).  A word at the start of a
line is told from a label by the token behind it, which is never a colon if the word is a mnemonic.
-/

namespace AdviceWeaving

namespace Rule

/-! ### References -/

private theorem gives_nameTree (d : NameTree) : Gives memberName [d.token] (some d.value) := by
  cases d <;> exact gives_token rfl

private theorem gives_typeName (name : String) : Gives valueType [.path name] (some (.ofName name)) :=
  (gives_path name).map ValueType.ofName

private theorem gives_typeList (types : List String) :
    Gives (parenthesized valueType) (typeListTokens types) (some (types.map .ofName)) :=
  gives_parenthesized (fun name _ => gives_typeName name) fun _ _ => rfl

private theorem gives_fieldTree (d : FieldTree) : Gives fieldSig d.tokens (some d.value) :=
  (gives_path d.declaring).then <| (gives_mark .doubleColon).then <| (gives_nameTree d.name).then <|
    (gives_mark .colon).then <| (gives_typeName d.type).map (FieldSig.mk d.declaring d.name.value)

private theorem gives_methodTree (d : MethodTree) : Gives methodSig d.tokens (some d.value) :=
  Gives.optional rfl <| (gives_path d.declaring).then <| (gives_mark .doubleColon).then <|
    (gives_nameTree d.name).then <| (gives_typeList d.params).then <| (gives_mark .arrow).then <|
    (gives_typeName d.ret).map (MethodSig.mk d.declaring d.name.value d.onInstance (d.params.map .ofName))

/-! ### Attributes -/

private theorem gives_argument (x : Argument) : Gives argument [x.token] (some x) := by
  cases x <;> exact gives_token rfl

private theorem gives_attributeTree (d : AttributeTree) : Gives attributeBody d.tokens.tail (some d.value) := by
  have hclose (args : List Argument) :
      Gives (do mark .closeBracket; return { name := d.name, args : Attribute })
        [.mark .closeBracket] (some { name := d.name, args }) :=
    (gives_mark .closeBracket).then (gives_pure _)
  obtain ⟨name, _ | args⟩ := d
  · exact (gives_path name).then <| Gives.peek fun _ => (gives_pure []).then (hclose [])
  · have hargs : Gives (parenthesized argument) (parenTokens (args.map ([·.token]))) (some (args.map id)) :=
      gives_parenthesized (fun x _ => gives_argument x) fun x _ => by cases x <;> rfl
    rw [List.map_id] at hargs
    exact (gives_path name).then <| Gives.peek fun _ => hargs.then (hclose args)

/-- Attributes, in front of a token that starts no further one. -/
private theorem read?_attributeTrees {ds : List AttributeTree} {front : List Lexeme}
    (hfront : front.map (·.token) = ds.flatMap (·.tokens)) {u : Lexeme} {us : List Lexeme}
    (hu : u.token ≠ .mark .openBracket) :
    (attributes (front ++ u :: us)).read? = some (ds.map (·.value), u :: us) := by
  induction ds generalizing front with
  | nil =>
    rw [List.map_eq_nil_iff.1 hfront, List.nil_append, read?_attributes, if_neg hu]
    rfl
  | cons d ds ih =>
    rw [List.flatMap_cons, AttributeTree.tokens, List.cons_append] at hfront
    obtain ⟨t, front, rfl, ht, hfront⟩ := List.map_eq_cons_iff.1 hfront
    obtain ⟨front, front', rfl, hd, hds⟩ := List.map_eq_append_iff.1 hfront
    rw [List.cons_append, read?_attributes, if_pos ht, List.append_assoc,
      gives_attributeTree d front _ hd, Option.map_some, Option.bind_some, ih hds]
    rfl

private theorem Gives.attributes {β : Type} {f : List Attribute → Rule β} {ds : List AttributeTree}
    {us : List Token} {s : Option β} (hus : startsOther (.mark .openBracket) us)
    (hf : Gives (f (ds.map (·.value))) us s) : Gives (attributes >>= f) (ds.flatMap (·.tokens) ++ us) s := by
  intro front rest hfront
  obtain ⟨front, front', rfl, hds, hfront'⟩ := List.map_eq_append_iff.1 hfront
  obtain ⟨u, us', rfl, hu⟩ := exists_cons_of_startsOther hus hfront'
  rw [read?_bind, List.append_assoc, List.cons_append, read?_attributeTrees hds hu]
  exact hf (u :: us') rest hfront'

/-! ### Lines of a body -/

theorem gives_operandTree {kind : OperandKind} (d : OperandTree kind) :
    Gives (operand kind) d.tokens (some d.value) := by
  cases d with
  | none => exact gives_pure _
  | field sig => exact (gives_fieldTree sig).map fun sig => WrittenOperand.complete (.field sig)
  | method sig => exact (gives_methodTree sig).map fun sig => WrittenOperand.complete (.method sig)
  | label name => exact (gives_path name).map WrittenOperand.line
  | int32 | int64 | index | string =>
    rw [operand]
    exact gives_token rfl

private theorem startsOperand_tokens (rest : List Token) : ∀ {kind : OperandKind} (d : OperandTree kind),
    startsOperand kind (d.tokens ++ rest).head?
  | _, .method ⟨false, _, _, _, _⟩ | _, .method ⟨true, _, _, _, _⟩ => rfl
  | _, .none | _, .field _ | _, .label _ | _, .string _ | _, .int32 _ | _, .int64 _ | _, .index _ => rfl

section

variable {mnemonic : String} {kind : OperandKind} (hkind : operandKind? mnemonic = some kind) (d : OperandTree kind)

include hkind

private theorem gives_labelledLine (label : String) :
    Gives (labelledLine label) (.path mnemonic :: d.tokens) (some ⟨some label, mnemonic, d.value⟩) := by
  intro front rest hfront
  obtain ⟨⟨_, span⟩, front, rfl, rfl, hoperand⟩ := List.map_eq_cons_iff.1 hfront
  have hnext := startsOperand_tokens (rest.map (·.token)) d
  rw [← hoperand, ← List.map_append, List.head?_map] at hnext
  rw [List.cons_append, labelledLine, Outcome.read?_behind]
  simp only [hkind, hnext, if_true]
  exact ((gives_operandTree d).map (Line.mk (some label) mnemonic)) front rest hoperand

/-- A line without a label, in front of a token that is not a colon. -/
private theorem read?_line {us : List Token} (hus : startsOther (.mark .colon) (d.tokens ++ us))
    {front rest : List Lexeme}
    (hfront : front.map (·.token) = d.tokens) (hrest : rest.map (·.token) = us) :
    (line mnemonic (front ++ rest)).read? = some (⟨none, mnemonic, d.value⟩, rest) := by
  have hboth : (front ++ rest).map (·.token) = d.tokens ++ us := by rw [List.map_append, hfront, hrest]
  obtain ⟨u, us', heq, hu⟩ := exists_cons_of_startsOther hus hboth
  have hoptional : (optional (.mark .colon) (front ++ rest)).read? = some (false, front ++ rest) := by
    rw [heq, read?_optional, if_neg hu]
  have hread := ((gives_operandTree d).map (Line.mk none mnemonic)) front rest hfront
  rw [line, read?_bind, hoptional, Option.bind_some]
  simpa only [Bool.false_eq_true, if_false, hkind, Option.map_some] using hread

end

/-- A line starts with a word, and so does what follows an instruction, or it is the closing brace. -/
theorem startsOther_colon (ls : List LineTree) (rest : List Token) :
    startsOther (.mark .colon) (BodyTree.linesTokens ls ++ rest) := by
  cases ls with
  | nil => rfl
  | cons l ls =>
    obtain ⟨_ | label, _, _, _, operand⟩ := l <;> rfl

theorem startsOther_colon_operand {us : List Token} (hus : startsOther (.mark .colon) us) :
    ∀ {kind : OperandKind} (d : OperandTree kind), startsOther (.mark .colon) (d.tokens ++ us)
  | _, .none => hus
  | _, .method ⟨false, _, _, _, _⟩ | _, .method ⟨true, _, _, _, _⟩ => rfl
  | _, .field _ | _, .label _ | _, .string _ | _, .int32 _ | _, .int64 _ | _, .index _ => rfl

private theorem gives_linesTokens (ls : List LineTree) :
    Gives lines (BodyTree.linesTokens ls) (some (ls.map (·.value))) := by
  intro front rest hfront
  induction ls generalizing front with
  | nil =>
    obtain ⟨⟨_, span⟩, rfl, rfl⟩ := List.map_eq_singleton_iff.1 hfront
    exact read?_lines_close span rest
  | cons l ls ih =>
    have htokens : BodyTree.linesTokens (l :: ls) = l.tokens ++ BodyTree.linesTokens ls := by
      simp [BodyTree.linesTokens]
    rw [htokens] at hfront
    obtain ⟨front, front', rfl, hl, hls⟩ := List.map_eq_append_iff.1 hfront
    have hline : (lines (front ++ (front' ++ rest))).read? =
        (lines (front' ++ rest)).read?.map fun more => (l.value :: more.1, more.2) := by
      obtain ⟨_ | label, mnemonic, kind, hkind, operand⟩ := l
      · obtain ⟨⟨_, span⟩, front, rfl, rfl, hoperand⟩ := List.map_eq_cons_iff.1 hl
        have hcolon := startsOther_colon_operand (startsOther_colon ls (rest.map (·.token))) operand
        rw [← hls, ← List.map_append] at hcolon
        rw [List.cons_append, read?_lines_path, read?_line hkind operand hcolon hoperand rfl, Option.bind_some]
        rfl
      · obtain ⟨⟨_, span⟩, front, rfl, rfl, hrest⟩ := List.map_eq_cons_iff.1 hl
        have hlabelled : Gives (line label) (.mark .colon :: .path mnemonic :: operand.tokens)
            (some ⟨some label, mnemonic, operand.value⟩) :=
          Gives.optional_hit (gives_labelledLine hkind operand label)
        rw [List.cons_append, read?_lines_path, hlabelled front _ hrest, Option.map_some, Option.bind_some]
        rfl
    rw [List.append_assoc, hline, ih front' hls]
    rfl

/-! ### Bodies -/

/-- Lines start with a word, and their end with the closing brace. -/
theorem startsOther_directive {k : Directive} (ls : List LineTree) :
    startsOther (.directive k) (BodyTree.linesTokens ls) := by
  cases ls with
  | nil => rfl
  | cons l ls => obtain ⟨_ | label, _, _, _, operand⟩ := l <;> rfl

/-- The lines of a body, and the rule `k` that makes the body of them, if they resolve. -/
private theorem gives_resolved {ls : List LineTree} {k : List Line → Rule Body} {f : List Instruction → Body}
    (hok : ∀ code, resolve (ls.map (·.value)) = .ok code → k (ls.map (·.value)) = pure (f code))
    (hfault : ∀ fault, resolve (ls.map (·.value)) = .error fault → ∃ e, k (ls.map (·.value)) = fail e) :
    Gives (lines >>= k) (BodyTree.linesTokens ls) ((resolve (ls.map (·.value))).toOption.map f) := by
  rw [← List.append_nil (BodyTree.linesTokens ls)]
  refine (gives_linesTokens ls).then ?_
  cases hcode : resolve (ls.map (·.value)) with
  | ok code =>
    rw [hok code hcode]
    exact gives_pure (f code)
  | error fault =>
    obtain ⟨e, he⟩ := hfault fault hcode
    rw [he]
    intro front rest _
    rfl

theorem gives_body (d : BodyTree) (brace : Span) : Gives (bodyFrom brace) d.rest d.value := by
  obtain ⟨locals, initLocals, ls⟩ := d
  cases locals with
  | none =>
    have hbehind : startsOther (.directive .locals)
        ((if initLocals then [.directive .initLocals] else []) ++ BodyTree.linesTokens ls) := by
      cases initLocals with
      | true => rfl
      | false => exact startsOther_directive ls
    exact Gives.optional_miss hbehind <| (gives_pure []).then <| Gives.optional (startsOther_directive ls) <|
      gives_resolved (fun code hcode => by simp [hcode])
        fun fault hfault => ⟨.unresolved brace fault, by simp [hfault]⟩
  | some types =>
    exact Gives.optional_hit <| (gives_typeList types).then <| Gives.optional (startsOther_directive ls) <|
      gives_resolved (fun code hcode => by simp [hcode])
        fun fault hfault => ⟨.unresolved brace fault, by simp [hfault]⟩

/-! ### Members -/

private theorem gives_named (name type : String) :
    Gives nameAndType (namedTokens name type) (some (name, .ofName type)) :=
  (gives_path name).then <| (gives_mark .colon).then <| (gives_typeName type).map (Prod.mk name)

private theorem gives_paramTree (d : ParamTree) : Gives param d.tokens (some d.value) :=
  Gives.attributes rfl <| (gives_named d.name d.type).map fun x =>
    { name := x.1, type := x.2, attributes := d.attributes.map (·.value) : Param }

/-- What starts with attributes starts with the bracket of the first one, or with what stands behind them. -/
theorem startsOther_attributes {t : Token} (ht : t ≠ .mark .openBracket) {ds : List AttributeTree} {us : List Token}
    (hus : startsOther t us) : startsOther t (ds.flatMap (·.tokens) ++ us) := by
  cases ds with
  | nil => exact hus
  | cons d ds => exact decide_eq_true ht.symm

private theorem gives_bodyOrNone (body : Option BodyTree) :
    Gives bodyOrNone (body.elim [.mark .semicolon] (·.tokens)) (DeclarationTree.bodyValue body) := by
  intro front rest hfront
  cases body with
  | none =>
    obtain ⟨⟨_, span⟩, rfl, rfl⟩ := List.map_eq_singleton_iff.1 hfront
    rfl
  | some d =>
    obtain ⟨⟨_, brace⟩, front, rfl, rfl, hbody⟩ := List.map_eq_cons_iff.1 hfront
    rw [List.cons_append, bodyOrNone, Outcome.read?_behind, Outcome.read?_withValue,
      gives_body d brace front rest hbody, DeclarationTree.bodyValue]
    cases d.value <;> rfl

private theorem gives_startingWith {α : Type} {f : Lexeme → Rule α} {t : Token} {us : List Token}
    {s : Option α} (h : ∀ span, Gives (f ⟨t, span⟩) us s) : Gives (startingWith f) (t :: us) s := by
  intro front rest hfront
  obtain ⟨⟨_, span⟩, front, rfl, rfl, hus⟩ := List.map_eq_cons_iff.1 hfront
  rw [List.cons_append, read?_startingWith]
  exact h span front rest hus

section

variable {attributes : List Attribute}

private theorem gives_fieldFrom (access : Access) (isStatic : Bool) (name type : String) :
    Gives (fieldFrom access isStatic attributes) (namedTokens name type)
      (some (.field { name, type := .ofName type, access, isStatic, attributes })) :=
  (gives_named name type).map fun x => Member.field { name := x.1, type := x.2, access, isStatic, attributes }

private theorem gives_methodFrom (access : Access) (isStatic : Bool) (name : NameTree) (params : List ParamTree)
    (ret : String) (body : Option BodyTree) :
    Gives (methodFrom access isStatic attributes) (DeclarationTree.methodTokens name params ret body)
      ((DeclarationTree.bodyValue body).map fun body => .method
        { name := name.value, access, isStatic, params := params.map (·.value), ret := .ofName ret
          attributes, body }) :=
  have hparams : Gives (parenthesized param) (parenTokens (params.map (·.tokens)))
      (some (params.map (·.value))) :=
    gives_parenthesized (fun p _ => gives_paramTree p) fun p _ => startsOther_attributes (by decide) rfl
  (gives_nameTree name).then <| hparams.then <| (gives_mark .arrow).then <| (gives_typeName ret).then <|
    (gives_bodyOrNone body).map fun body => Member.method
      { name := name.value, access, isStatic, params := params.map (·.value), ret := .ofName ret
        attributes, body }

/-- The modifiers of a field or of a method, in front of its keyword; without any, the member starts with that. -/
private theorem gives_modifiers {t : Token} {ts : List Token} {s : Access → Bool → Option Member}
    (hstatic : startsOther (.keyword .static) (t :: ts))
    (h : ∀ access isStatic, Gives (fieldOrMethod access isStatic attributes) (t :: ts) (s access isStatic))
    (hplain : Gives (startingWith (memberFrom attributes)) (t :: ts) (s .priv false))
    (access : Option Access) (isStatic : Bool) :
    Gives (startingWith (memberFrom attributes)) (DeclarationTree.modifiers access isStatic ++ t :: ts)
      (s (access.getD .priv) isStatic) := by
  have hmaybe (access : Access) : Gives (maybeStatic access attributes)
      ((if isStatic then [.keyword .static] else []) ++ t :: ts) (s access isStatic) :=
    Gives.optional hstatic (h access isStatic)
  rcases access with _ | _ | _
  · cases isStatic with
    | false => exact hplain
    | true => exact gives_startingWith fun _ => h .priv true
  · exact gives_startingWith fun _ => hmaybe .pub
  · exact gives_startingWith fun _ => hmaybe .priv

private theorem gives_declarationTree (d : DeclarationTree) :
    Gives (startingWith (memberFrom attributes)) d.tokens (d.value attributes) := by
  cases d with
  | field access isStatic name type =>
    have hrest (access : Access) (isStatic : Bool) : Gives (fieldOrMethod access isStatic attributes)
        (.keyword .field :: namedTokens name type) _ :=
      Gives.token rfl (gives_fieldFrom access isStatic name type)
    exact gives_modifiers rfl hrest (gives_startingWith fun _ => gives_fieldFrom .priv false name type) access
      isStatic
  | property name type =>
    exact gives_startingWith fun _ => (gives_named name type).map fun x =>
      Member.property { name := x.1, type := x.2, attributes }
  | method access isStatic name params ret body =>
    have hrest (access : Access) (isStatic : Bool) : Gives (fieldOrMethod access isStatic attributes)
        (.keyword .method :: DeclarationTree.methodTokens name params ret body) _ :=
      Gives.token rfl (gives_methodFrom access isStatic name params ret body)
    exact gives_modifiers rfl hrest
      (gives_startingWith fun _ => gives_methodFrom .priv false name params ret body) access isStatic

end

/-- A declaration starts with a keyword. -/
theorem startsOther_declaration {m : Mark} (d : DeclarationTree) : startsOther (.mark m) d.tokens := by
  cases d with
  | field access isStatic name type => cases access <;> cases isStatic <;> rfl
  | property name type => rfl
  | method access isStatic name params ret body => cases access <;> cases isStatic <;> rfl

theorem gives_memberTree (d : MemberTree) : Gives member d.tokens d.value :=
  Gives.attributes (startsOther_declaration d.declaration) (gives_declarationTree d.declaration)

private theorem gives_membersTokens (ds : List MemberTree) :
    Gives members (TypeTree.membersTokens ds) (ds.mapM MemberTree.value) := by
  intro front rest hfront
  refine read?_loop (p := member) ?_ ?_ (fun d _ => gives_memberTree d) hfront
  · intro front hfront
    obtain ⟨t, rfl, ht⟩ := List.map_eq_singleton_iff.1 hfront
    rw [List.singleton_append, read?_members, if_pos ht]
  · intro d _ front rest hfront
    have hfirst : startsOther (.mark .closeBrace) d.tokens :=
      startsOther_attributes (by decide) (startsOther_declaration d.declaration)
    obtain ⟨u, us, rfl, hu⟩ := exists_cons_of_startsOther hfirst hfront
    rw [List.cons_append, read?_members, if_neg hu]

/-! ### Types and modules -/

private theorem gives_typeTree (d : TypeTree) : Gives typeDecl d.tokens d.value := by
  obtain ⟨attributes, kind, name, base, members⟩ := d
  refine Gives.attributes (by cases kind <;> rfl) <| gives_startingWith fun span => ?_
  have hmembers (base : Option String) := (gives_membersTokens members).map
    (typeOf name kind base (attributes.map (·.value)))
  have hbody : Gives (typeBody kind (attributes.map (·.value)))
      (TypeTree.rest ⟨attributes, kind, name, base, members⟩)
      (TypeTree.value ⟨attributes, kind, name, base, members⟩) := by
    refine (gives_path name).then ?_
    cases base with
    | none =>
      exact Gives.optional_miss rfl <| (gives_pure none).then <| (gives_mark .openBrace).then (hmembers none)
    | some base =>
      exact Gives.optional_hit <| ((gives_path base).map some).then <|
        (gives_mark .openBrace).then (hmembers (some base))
  cases kind <;> exact hbody

private theorem read?_typeTrees {ds : List TypeTree} {front : List Lexeme}
    (hfront : front.map (·.token) = ds.flatMap (·.tokens)) :
    (types front).read? = (ds.mapM TypeTree.value).map (·, []) := by
  have hend (front : List Lexeme) (hfront : front.map (·.token) = []) :
      (types (front ++ [])).read? = some ([], []) := by
    rw [List.map_eq_nil_iff.1 hfront, List.append_nil, types]
    rfl
  have hmore : ∀ d ∈ ds, ∀ front rest : List Lexeme, front.map (·.token) = d.tokens →
      (types (front ++ rest)).read? = (typeDecl (front ++ rest)).read?.bind fun found =>
        (types found.2).read?.map fun more => (found.1 :: more.1, more.2) := by
    intro d _ front rest hfront
    have hfirst : startsOther (.mark .closeBrace) d.tokens :=
      startsOther_attributes (by decide) (by cases d.kind <;> rfl)
    obtain ⟨u, us, rfl, -⟩ := exists_cons_of_startsOther hfirst hfront
    rw [List.cons_append, read?_types]
  have hloop := read?_loop hend hmore (fun d _ => gives_typeTree d) (hfront.trans (List.append_nil _).symm)
  rwa [List.append_nil] at hloop

/-- The tokens of a module are read as its value, to the end. -/
theorem read?_moduleTree (d : ModuleTree) {front : List Lexeme} (hfront : front.map (·.token) = d.tokens) :
    (module front).read? = d.value.map (·, []) := by
  obtain ⟨k, front, rfl, hk, hfront⟩ := List.map_eq_cons_iff.1 hfront
  obtain ⟨n, front, rfl, hn, htypes⟩ := List.map_eq_cons_iff.1 hfront
  have hkeyword := gives_exactly (.keyword .module) [k] (n :: front) (by simp [hk])
  have hname := gives_path d.name [n] front (by simp [hn])
  rw [List.singleton_append] at hkeyword hname
  simp only [module, read?_bind, hkeyword, hname, Option.map_some, Option.bind_some, read?_typeTrees htypes,
    ModuleTree.value]
  cases d.types.mapM TypeTree.value <;> rfl

end Rule

end AdviceWeaving
