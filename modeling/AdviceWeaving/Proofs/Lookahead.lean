import AdviceWeaving.Proofs.Attempts

/-!
# One token of lookahead

The rules of module text never go back, and yet they read what is read by trial: `ofRule_module` says so of modules,
and `module?_parse` of their text.  Where a rule gives up and an attempt goes back, nothing that is tried then reads the
token at which the rule started.
-/

namespace AdviceWeaving

namespace Attempt

variable {α β : Type}

/-! ### References -/

private theorem ofRule_valueType : ofRule Rule.valueType = valueType := by
  rw [Rule.valueType, ofRule_bind, ofRule_path]
  rfl

private theorem ofRule_memberName : ofRule Rule.memberName = memberName := by
  rw [Rule.memberName, ofRule_token]
  funext ts
  rcases ts with _ | ⟨⟨_ | _ | _ | _ | _ | _ | _, _⟩, _⟩ <;> rfl

private theorem ofRule_nameAndType : ofRule Rule.nameAndType = nameAndType := by
  simp only [Rule.nameAndType, ofRule_bind, ofRule_path, ofRule_mark, ofRule_valueType, ofRule_pure, nameAndType]

private theorem ofRule_fieldSig : ofRule Rule.fieldSig = fieldSig := by
  simp only [Rule.fieldSig, ofRule_bind, ofRule_path, ofRule_mark, ofRule_memberName, ofRule_valueType, ofRule_pure,
    fieldSig]

private theorem ofRule_typeList : ofRule (Rule.parenthesized Rule.valueType) = typeList := by
  have h : (ofRule Rule.valueType).Refuses (.mark .closeParen) := by
    rw [ofRule_valueType]
    exact (refuses_select rfl).bind _
  rw [ofRule_parenthesized h, ofRule_valueType, typeList]

private theorem ofRule_methodSig : ofRule Rule.methodSig = methodSig := by
  rw [Rule.methodSig, ofRule_flag]
  simp only [ofRule_bind, ofRule_path, ofRule_mark, ofRule_memberName, ofRule_typeList, ofRule_valueType, ofRule_pure,
    methodSig]

/-! ### Attributes -/

private theorem ofRule_argument : ofRule Rule.argument = argument := by
  rw [Rule.argument, ofRule_token]
  funext ts
  rcases ts with _ | ⟨⟨_ | _ | _ | _ | _ | _ | _, _⟩, _⟩ <;> rfl

private theorem ofRule_arguments : ofRule (Rule.parenthesized Rule.argument) = arguments := by
  have h : (ofRule Rule.argument).Refuses (.mark .closeParen) := by
    rw [Rule.argument, ofRule_token]
    exact refuses_select rfl
  rw [ofRule_parenthesized h, ofRule_argument, arguments]

/-- The arguments that stand behind their opening parenthesis. -/
private def argumentsFrom : Attempt (List Argument) := do
  let args ← separated argument
  just (.mark .closeParen)
  return args

private theorem ofRule_attribute : (just (.mark .openBracket) >>= fun _ => ofRule Rule.attributeBody) =
    oneAttribute := by
  rw [oneAttribute, delimited]
  congr 1
  funext _
  rw [Rule.attributeBody, ofRule_bind, ofRule_path]
  simp only [bind_assoc, pure_bind]
  congr 1
  funext name
  have hrefuses : (just (.mark .closeBracket) >>= fun _ => pure (⟨name, []⟩ : Attribute)).Refuses (.mark .openParen) :=
    (refuses_just (by decide)).bind _
  rw [show arguments = just (.mark .openParen) >>= fun _ => argumentsFrom from rfl]
  rw [optional_bind_of_refuses hrefuses, ofRule_bind]
  ext1 ts
  have hpeek : (ofRule Rule.peek).run ts = some (ts.head?, ts) := rfl
  rw [StateT.run_bind, StateT.run_bind, hpeek]
  simp only [Option.bind_eq_bind, Option.bind_some]
  split
  next _ span h =>
    obtain ⟨us, rfl⟩ := List.head?_eq_some_iff.1 h
    rw [run_optional_of_some ((run_just (.mark .openParen) _ us).trans (if_pos rfl))]
    simp only [Option.bind_some, Option.elim_some]
    rw [ofRule_bind, ofRule_arguments, arguments, delimited, bind_assoc, run_just_bind, if_pos rfl]
    simp only [ofRule_bind, ofRule_mark, ofRule_pure]
    rfl
  next h =>
    rw [run_optional_of_none (run_just_of_absent fun span _ hts => h span (by rw [hts]; rfl))]
    simp only [Option.bind_some, Option.elim_none]
    rw [ofRule_bind, ofRule_pure, pure_bind, ofRule_bind, ofRule_mark]
    rfl

/-- Attributes end where no bracket opens. -/
private theorem ofRule_clear_attributes :
    ofRule Rule.attributes = attributes >>= fun as => clear (.mark .openBracket) >>= fun _ => pure as := by
  ext1 ts
  refine run_loop (fun ts hitem => ?_) (fun ts a rest hitem => ?_) ts
  · rcases ts with _ | ⟨t, ts⟩
    · show (Rule.attributes []).read? = _
      rw [Rule.attributes]
      rfl
    rw [← ofRule_attribute, run_just_bind] at hitem
    show (Rule.attributes (t :: ts)).read? = _
    rw [Rule.read?_attributes, StateT.run_bind, run_clear]
    split
    next hopen =>
      rw [if_pos hopen] at hitem
      rw [show (Rule.attributeBody ts).read? = none from hitem]
      rfl
    · rfl
  · rcases ts with _ | ⟨t, ts⟩
    · cases hitem
    rw [← ofRule_attribute, run_just_bind] at hitem
    split at hitem
    next hopen =>
      refine ⟨Rule.length_lt_of_read? a rest hitem, ?_⟩
      show (Rule.attributes (t :: ts)).read? = _
      rw [Rule.read?_attributes, if_pos hopen, show (Rule.attributeBody ts).read? = _ from hitem]
      rfl
    · cases hitem

/-- Attributes, and what does not start with a bracket. -/
private theorem ofRule_attributes {f : List Attribute → Rule β} {g : List Attribute → Attempt β}
    (hf : ∀ as, ofRule (f as) = g as) (hg : ∀ as, (g as).Refuses (.mark .openBracket)) :
    ofRule (Rule.attributes >>= f) = attributes >>= g := by
  simp only [ofRule_bind, ofRule_clear_attributes, bind_assoc, pure_bind, hf, clear_bind (hg _)]

private theorem refuses_oneAttribute {t : Token} (h : t ≠ .mark .openBracket) : oneAttribute.Refuses t :=
  (refuses_just h).bind _

private theorem ofRule_param : ofRule Rule.param = param := by
  refine ofRule_attributes (fun as => ?_) fun as => ?_
  · simp only [ofRule_bind, ofRule_nameAndType, ofRule_pure]
  · exact ((refuses_select rfl).bind _).bind _

/-! ### Lines of a body -/

private theorem run_mnemonic (kinds : List OperandKind) (word : String) (span : Span) (ts : List Lexeme) :
    (mnemonic kinds).run (⟨.path word, span⟩ :: ts) =
      if (operandKind? word).any (· ∈ kinds) then some (word, ts) else none := by
  rw [mnemonic, StateT.run_bind, show path.run (⟨.path word, span⟩ :: ts) = some (word, ts) from rfl]
  show (guard ((operandKind? word).any (· ∈ kinds)) >>= fun _ => pure word : Attempt String).run ts = _
  rw [guard]
  split <;> rfl

/-- The operand of a mnemonic. -/
private def operand : OperandKind → Attempt WrittenOperand
  | .none => return .complete .absent
  | .int32 | .int64 | .index => do return .complete (.int (← int))
  | .string => do return .complete (.string (← string))
  | .field => do return .complete (.field (← fieldSig))
  | .method => do return .complete (.method (← methodSig))
  | .label => do return .line (← path)

private theorem ofRule_operand (kind : OperandKind) : ofRule (Rule.operand kind) = operand kind := by
  cases kind with
  | none => rfl
  | field => rw [Rule.operand, ofRule_bind, ofRule_fieldSig]; rfl
  | method => rw [Rule.operand, ofRule_bind, ofRule_methodSig]; rfl
  | label => rw [Rule.operand, ofRule_bind, ofRule_path]; rfl
  | string | int32 | int64 | index =>
    rw [Rule.operand, ofRule_token]
    funext ts
    rcases ts with _ | ⟨⟨_ | _ | _ | _ | _ | _ | _, _⟩, _⟩ <;> rfl

/-- An operand is not read where its first token is not there. -/
private theorem run_operand_of_not_starts {kind : OperandKind} {ts : List Lexeme}
    (h : ¬ Rule.startsOperand kind (ts.head?.map (·.token))) : (operand kind).run ts = none := by
  cases kind with
  | none => exact absurd rfl h
  | int32 | int64 | index | string | field | label =>
    rcases ts with _ | ⟨⟨_ | _ | _ | _ | _ | _ | _, _⟩, _⟩ <;> first | rfl | exact absurd rfl h
  | method =>
    rcases ts with _ | ⟨⟨word | _ | _ | _ | _ | _ | _, _⟩, _⟩
    · rfl
    · cases word <;> first | rfl | exact absurd rfl h
    all_goals first | rfl | exact absurd rfl h

/-- A mnemonic tells the alternative to which it belongs. -/
private theorem run_instruction (word : String) (span : Span) (ts : List Lexeme) :
    instruction.run (⟨.path word, span⟩ :: ts) = (operandKind? word).bind fun kind =>
      (operand kind >>= fun o => pure (word, o)).run ts := by
  rw [instruction]
  simp only [StateT.run_orElse, StateT.run_bind, run_mnemonic]
  cases operandKind? word with
  | none => rfl
  | some kind => cases kind <;> simp [operand, Option.bind_map, Function.comp_def]

private theorem refuses_instruction {t : Token} (h : path.Refuses t) : instruction.Refuses t := by
  have hmnemonic (kinds : List OperandKind) : (mnemonic kinds).Refuses t := h.bind _
  exact ((hmnemonic _).bind _).orElse <| ((hmnemonic _).bind _).orElse <| ((hmnemonic _).bind _).orElse <|
    ((hmnemonic _).bind _).orElse <| ((hmnemonic _).bind _).orElse ((hmnemonic _).bind _)

private theorem refuses_path {t : Token} (h : ∀ name, t = .path name → False) : path.Refuses t :=
  refuses_select (by cases t <;> first | rfl | exact absurd rfl (h _))

private theorem ofRule_lineFrom (label? : Option String) (word : String) (kind : OperandKind) :
    ofRule (Rule.operand kind >>= fun o => pure (Line.mk label? word o)) =
      (operand kind >>= fun o => pure (word, o)) >>= fun found => pure ⟨label?, found.1, found.2⟩ := by
  simp only [ofRule_bind, ofRule_operand, ofRule_pure, bind_assoc, pure_bind]

private theorem ofRule_labelledLine (label : String) : ofRule (Rule.labelledLine label) =
    instruction >>= fun found => pure ⟨some label, found.1, found.2⟩ := by
  ext1 ts
  show (Rule.labelledLine label ts).read? = _
  unfold Rule.labelledLine
  rw [StateT.run_bind]
  split
  next word span ts =>
    rw [Outcome.read?_behind, run_instruction]
    split
    next hkind => rw [hkind]; rfl
    next kind hkind =>
      rw [hkind]
      split
      · show (ofRule (Rule.operand kind >>= fun o => pure (Line.mk (some label) word o))).run ts = _
        rw [ofRule_lineFrom]
        rfl
      next hstarts =>
        rw [Option.bind_some, StateT.run_bind, run_operand_of_not_starts hstarts]
        rfl
  next hword =>
    have hnone : instruction.run ts = none := by
      rcases ts with _ | ⟨⟨t, span⟩, ts⟩
      · rfl
      · refine refuses_instruction (refuses_path fun name h => ?_) span ts
        exact hword name span ts (by rw [h])
    rw [hnone]
    rfl

/-- A line is read behind its first word as it is tried from there. -/
private theorem run_line (word : String) (span : Span) (ts : List Lexeme) :
    line.run (⟨.path word, span⟩ :: ts) = (ofRule (Rule.line word)).run ts := by
  have hlabel : label.run (⟨.path word, span⟩ :: ts) =
      (just (.mark .colon) >>= fun _ => pure word : Attempt String).run ts := rfl
  rw [Rule.line, ofRule_flag, line, StateT.run_bind, StateT.run_bind]
  cases hcolon : (just (.mark .colon)).run ts with
  | some found =>
    obtain ⟨_, rest⟩ := found
    rw [StateT.run_bind, hcolon] at hlabel
    rw [run_optional_of_some hlabel, run_optional_of_some hcolon]
    show _ = (ofRule (Rule.labelledLine word)).run rest
    rw [ofRule_labelledLine]
    rfl
  | none =>
    rw [StateT.run_bind, hcolon] at hlabel
    rw [run_optional_of_none hlabel, run_optional_of_none hcolon]
    simp only [Option.bind_eq_bind, Option.bind_some]
    rw [StateT.run_bind, run_instruction]
    cases operandKind? word with
    | none => rfl
    | some kind =>
      show _ = (ofRule (Rule.operand kind >>= fun o => pure (Line.mk none word o))).run ts
      rw [ofRule_lineFrom]
      rfl

private theorem refuses_line {t : Token} (h : path.Refuses t) : line.Refuses t :=
  Refuses.optional (h.bind _) ((refuses_instruction h).bind _)

private theorem ofRule_lines : ofRule Rule.lines =
    repeated line >>= fun lines => just (.mark .closeBrace) >>= fun _ => pure lines := by
  ext1 ts
  refine run_loop (fun ts hitem => ?_) (fun ts a rest hitem => ?_) ts
  · show (Rule.lines ts).read? = _
    rw [Rule.lines.eq_def]
    split
    · rfl
    next word span ts =>
      rw [run_line] at hitem
      rw [Outcome.read?_behind, Rule.read?_more, show (Rule.line word ts).read? = none from hitem]
      rfl
    next hclose _ =>
      rw [StateT.run_bind, run_just_of_absent hclose]
      rfl
  · rcases ts with _ | ⟨⟨t, span⟩, ts⟩
    · cases hitem
    by_cases hword : ∃ word, t = .path word
    · obtain ⟨word, rfl⟩ := hword
      rw [run_line] at hitem
      refine ⟨Rule.length_lt_of_read? a rest hitem, ?_⟩
      show (Rule.lines (⟨.path word, span⟩ :: ts)).read? = _
      rw [Rule.read?_lines_path, show (Rule.line word ts).read? = _ from hitem]
      rfl
    · rw [refuses_line (refuses_path fun word h => hword ⟨word, h⟩)] at hitem
      cases hitem

/-! ### Bodies -/

private theorem ofRule_behindLocals {locals : List ValueType} {k : Bool → List Line → Rule Body}
    (hk : ∀ initLocals lines, ofRule (k initLocals lines) = resolved (locals, initLocals, lines)) :
    ofRule (Rule.optional (.directive .initLocals) >>= fun initLocals => Rule.lines >>= k initLocals) =
      optional (just (.directive .initLocals)) >>= fun initLocals => repeated line >>= fun lines =>
        just (.mark .closeBrace) >>= fun _ => resolved (locals, initLocals.isSome, lines) := by
  rw [ofRule_flag]
  simp only [ofRule_bind, ofRule_lines, bind_assoc, pure_bind, hk]

private theorem ofRule_bodyFrom (brace : Span) : ofRule (Rule.bodyFrom brace) =
    bodyParts >>= fun parts => just (.mark .closeBrace) >>= fun _ => resolved parts := by
  have hline : line.Refuses (.directive .locals) := refuses_line (refuses_select rfl)
  rw [Rule.bodyFrom, ofRule_flag, bodyParts]
  simp only [bind_assoc, pure_bind]
  rw [optional_bind_of_refuses]
  · congr 1
    funext there
    cases there with
    | none =>
      show ofRule (pure [] >>= _) = _
      rw [ofRule_bind, ofRule_pure, pure_bind]
      exact ofRule_behindLocals fun _ lines => by rw [resolved]; cases resolve lines <;> rfl
    | some _ =>
      show ofRule (Rule.parenthesized Rule.valueType >>= _) = _
      rw [ofRule_bind, ofRule_typeList]
      exact congrArg (typeList >>= ·) (funext fun _ => ofRule_behindLocals fun _ lines => by
        rw [resolved]
        cases resolve lines <;> rfl)
  · exact (refuses_just (by decide)).optional (hline.repeated ((refuses_just (by decide)).bind _))

private theorem run_body (brace : Span) (ts : List Lexeme) :
    body.run (⟨.mark .openBrace, brace⟩ :: ts) = (ofRule (Rule.bodyFrom brace)).run ts := by
  rw [body, delimited, ofRule_bodyFrom]
  simp only [bind_assoc, pure_bind, run_just_bind, if_true]

private theorem ofRule_bodyOrNone : ofRule Rule.bodyOrNone = bodyOrNone := by
  ext1 ts
  show (Rule.bodyOrNone ts).read? = _
  rw [Rule.bodyOrNone.eq_def, bodyOrNone, StateT.run_orElse]
  split
  · rw [run_just_bind, if_pos rfl]
    rfl
  next brace ts =>
    rw [run_just_bind, if_neg (by simp), StateT.run_bind, run_body, Outcome.read?_behind, Outcome.read?_withValue]
    show _ = ((Rule.bodyFrom brace ts).read?.bind _)
    cases (Rule.bodyFrom brace ts).read? <;> rfl
  next hsemicolon hbrace =>
    rw [body, delimited]
    simp only [bind_assoc, StateT.run_bind, run_just_of_absent hsemicolon, run_just_of_absent hbrace]
    rfl

/-! ### Members -/

private theorem orElse_bind_pure (p q : Attempt α) (f : α → β) :
    ((p <|> q) >>= fun a => pure (f a)) = ((p >>= fun a => pure (f a)) <|> (q >>= fun a => pure (f a))) := by
  ext1 ts
  rw [StateT.run_orElse, StateT.run_bind, StateT.run_orElse, StateT.run_bind, StateT.run_bind]
  cases p.run ts <;> rfl

private theorem ofRule_propertyFrom (attributes : List Attribute) :
    (property >>= fun p => pure (withAttributes attributes (.property p))) =
      just (.keyword .property) >>= fun _ => ofRule (Rule.propertyFrom attributes) := by
  simp only [Rule.propertyFrom, ofRule_bind, ofRule_nameAndType, ofRule_pure, property, bind_assoc, pure_bind,
    withAttributes]

private theorem ofRule_fieldFrom (attributes : List Attribute) :
    (field >>= fun f => pure (withAttributes attributes (.field f))) =
      access >>= fun access => isStatic >>= fun isStatic => just (.keyword .field) >>= fun _ =>
        ofRule (Rule.fieldFrom access isStatic attributes) := by
  simp only [Rule.fieldFrom, ofRule_bind, ofRule_nameAndType, ofRule_pure, field, bind_assoc, pure_bind,
    withAttributes]

private theorem ofRule_params : ofRule (Rule.parenthesized Rule.param) =
    delimited .openParen .closeParen (separated param) := by
  have h : (ofRule Rule.param).Refuses (.mark .closeParen) := by
    rw [ofRule_param]
    exact (refuses_oneAttribute (by decide)).repeated (((refuses_select rfl).bind _).bind _)
  rw [ofRule_parenthesized h, ofRule_param]

private theorem ofRule_methodFrom (attributes : List Attribute) :
    (method >>= fun m => pure (withAttributes attributes (.method m))) =
      access >>= fun access => isStatic >>= fun isStatic => just (.keyword .method) >>= fun _ =>
        ofRule (Rule.methodFrom access isStatic attributes) := by
  simp only [Rule.methodFrom, ofRule_bind, ofRule_memberName, ofRule_params, ofRule_mark, ofRule_valueType,
    ofRule_bodyOrNone, ofRule_pure, method, bind_assoc, pure_bind, withAttributes]

private theorem ofRule_fieldOrMethod (access : Access) (isStatic : Bool) (attributes : List Attribute) :
    ofRule (Rule.fieldOrMethod access isStatic attributes) =
      ((just (.keyword .field) >>= fun _ => ofRule (Rule.fieldFrom access isStatic attributes)) <|>
       (just (.keyword .method) >>= fun _ => ofRule (Rule.methodFrom access isStatic attributes))) := by
  rw [Rule.fieldOrMethod, ofRule_bind, ofRule_token]
  ext1 ts
  rw [StateT.run_orElse]
  rcases ts with _ | ⟨⟨t, span⟩, ts⟩
  · rfl
  rw [run_just_bind, run_just_bind]
  by_cases hfield : t = .keyword .field
  · subst hfield
    rw [if_pos rfl, if_neg (by simp)]
    show (ofRule (Rule.fieldFrom access isStatic attributes)).run ts = _
    cases (ofRule (Rule.fieldFrom access isStatic attributes)).run ts <;> rfl
  by_cases hmethod : t = .keyword .method
  · subst hmethod
    rw [if_neg (by simp), if_pos rfl]
    rfl
  · rw [if_neg hfield, if_neg hmethod]
    refine (refuses_select ?_).bind _ span ts
    rcases t with word | _ | _ | _ | _ | _ | _
    · cases word <;> first | rfl | exact absurd rfl hfield | exact absurd rfl hmethod
    all_goals rfl

/-- A field or a method behind its modifiers. -/
private def modified (attributes : List Attribute) : Attempt Rule.Member :=
  access >>= fun access => isStatic >>= fun isStatic => ofRule (Rule.fieldOrMethod access isStatic attributes)

/-- A field and a method start alike. -/
private theorem modified_eq (attributes : List Attribute) :
    modified attributes =
      ((field >>= fun f => pure (withAttributes attributes (.field f))) <|>
       (method >>= fun m => pure (withAttributes attributes (.method m)))) := by
  simp only [modified, ofRule_fieldFrom, ofRule_methodFrom, bind_orElse_bind, ofRule_fieldOrMethod]

private theorem run_modified (attributes : List Attribute) (u : Lexeme) (ts : List Lexeme)
    (hu : u.token ≠ .keyword .property) :
    (modified attributes).run (u :: ts) = (ofRule (Rule.memberFrom attributes u)).run ts := by
  obtain ⟨t, span⟩ := u
  have hstatic (access : Access) : ofRule (Rule.maybeStatic access attributes) =
      isStatic >>= fun isStatic => ofRule (Rule.fieldOrMethod access isStatic attributes) := by
    rw [Rule.maybeStatic, ofRule_flag]
    simp only [isStatic, bind_assoc, pure_bind]
  rcases t with word | _ | _ | _ | _ | _ | _
  · cases word with
    | pub => exact congrFun (hstatic .pub).symm ts
    | priv => exact congrFun (hstatic .priv).symm ts
    | property => exact absurd rfl hu
    | field =>
      show (ofRule (Rule.fieldOrMethod .priv false attributes)).run (⟨.keyword .field, span⟩ :: ts) = _
      rw [Rule.fieldOrMethod, ofRule_bind, ofRule_token]
      rfl
    | method =>
      show (ofRule (Rule.fieldOrMethod .priv false attributes)).run (⟨.keyword .method, span⟩ :: ts) = _
      rw [Rule.fieldOrMethod, ofRule_bind, ofRule_token]
      rfl
    | _ => rfl
  all_goals rfl

private theorem ofRule_memberFrom (attributes : List Attribute) (u : Lexeme) (ts : List Lexeme) :
    (ofRule (Rule.memberFrom attributes u)).run ts =
      (declaration >>= fun a => pure (withAttributes attributes a)).run (u :: ts) := by
  have hmodified : (modified attributes).run (u :: ts) = _ := congrFun (modified_eq attributes) (u :: ts)
  have hproperty : (property >>= fun p => pure (withAttributes attributes (.property p))).run (u :: ts) =
      if u.token = .keyword .property then (ofRule (Rule.propertyFrom attributes)).run ts else none := by
    rw [ofRule_propertyFrom, run_just_bind]
  simp only [declaration, orElse_bind_pure, bind_assoc, pure_bind]
  rw [StateT.run_orElse, StateT.run_orElse, hproperty]
  by_cases hu : u.token = .keyword .property
  · obtain ⟨t, span⟩ := u
    subst hu
    have hfield : field.run (⟨.keyword .property, span⟩ :: ts) = none := rfl
    have hmethod : method.run (⟨.keyword .property, span⟩ :: ts) = none := rfl
    rw [if_pos rfl, StateT.run_bind, StateT.run_bind, hfield, hmethod]
    show (ofRule (Rule.propertyFrom attributes)).run ts = _
    cases (ofRule (Rule.propertyFrom attributes)).run ts <;> rfl
  · rw [if_neg hu, ← run_modified attributes u ts hu, hmodified]
    rfl

private theorem refuses_declaration {m : Mark} : declaration.Refuses (.mark m) :=
  fun _ _ => rfl

private theorem ofRule_member : ofRule Rule.member = member := by
  refine ofRule_attributes (fun as => ?_) fun as => ?_
  · ext1 ts
    rcases ts with _ | ⟨u, ts⟩
    · rfl
    · rw [← ofRule_memberFrom]
      exact Rule.read?_startingWith (Rule.memberFrom as) u ts
  · exact refuses_declaration.bind _

private theorem ofRule_members : ofRule Rule.members =
    repeated member >>= fun members => just (.mark .closeBrace) >>= fun _ => pure members := by
  ext1 ts
  refine run_loop (fun ts hitem => ?_) (fun ts a rest hitem => ?_) ts
  · rcases ts with _ | ⟨t, ts⟩
    · show (Rule.members []).read? = none
      rw [Rule.members]
      rfl
    rw [← ofRule_member] at hitem
    rw [run_just_bind]
    show (Rule.members (t :: ts)).read? = _
    rw [Rule.read?_members]
    split
    · rfl
    · rw [show (Rule.member (t :: ts)).read? = none from hitem]
      rfl
  · have hrefuses : member.Refuses (.mark .closeBrace) :=
      (refuses_oneAttribute (by decide)).repeated (refuses_declaration.bind _)
    have hrule : (Rule.member ts).read? = some (a, rest) := (congrFun ofRule_member ts).trans hitem
    have hlt := Rule.length_lt_of_attributed a rest hrule
    refine ⟨hlt, ?_⟩
    rcases ts with _ | ⟨⟨t, span⟩, ts⟩
    · cases hlt
    have ht : t ≠ .mark .closeBrace := by
      rintro rfl
      rw [hrefuses] at hitem
      cases hitem
    show (Rule.members (⟨t, span⟩ :: ts)).read? = _
    rw [Rule.read?_members, if_neg ht, hrule]
    rfl

/-! ### Types and modules -/

/-- A type behind the keyword that tells its kind. -/
private def typeBody (attributes : List Attribute) (kind : TypeKind) : Attempt TypeDecl := do
  let name ← path
  let base ← base
  let members ← delimited .openBrace .closeBrace (repeated member)
  return Rule.typeOf name kind base attributes members

private theorem ofRule_typeBody (kind : TypeKind) (attributes : List Attribute) :
    ofRule (Rule.typeBody kind attributes) = typeBody attributes kind := by
  rw [Rule.typeBody, ofRule_bind, ofRule_path, typeBody]
  congr 1
  funext name
  rw [ofRule_flag, base, optional_bind_of_refuses]
  · congr 1
    funext there
    cases there with
    | none =>
      show ofRule (pure none >>= _) = _
      simp only [ofRule_bind, ofRule_mark, ofRule_members, ofRule_pure, delimited, bind_assoc, pure_bind,
        Option.elim_none]
    | some _ =>
      show ofRule ((Rule.path >>= fun a => pure (some a)) >>= _) = _
      simp only [ofRule_bind, ofRule_path, ofRule_mark, ofRule_members, ofRule_pure, delimited, bind_assoc, pure_bind,
        Option.elim_some]
  · rw [delimited, bind_assoc]
    exact (refuses_just (by decide)).bind _

private theorem ofRule_typeDecl : ofRule Rule.typeDecl = typeDecl := by
  refine ofRule_attributes (fun as => ?_) fun as => ?_
  · ext1 ts
    rcases ts with _ | ⟨⟨t, span⟩, ts⟩
    · rfl
    · refine (Rule.read?_startingWith (Rule.typeFrom as) ⟨t, span⟩ ts).trans ?_
      show _ = (kind >>= typeBody as).run (⟨t, span⟩ :: ts)
      rcases t with word | _ | _ | _ | _ | _ | _
      · cases word with
        | classType => exact congrFun (ofRule_typeBody .classType as) ts
        | interfaceType => exact congrFun (ofRule_typeBody .interfaceType as) ts
        | _ => rfl
      all_goals rfl
  · exact Refuses.bind (fun _ _ => rfl) _

private theorem ofRule_types : ofRule Rule.types =
    repeated typeDecl >>= fun types => atEnd >>= fun _ => pure types := by
  ext1 ts
  refine run_loop (fun ts hitem => ?_) (fun ts a rest hitem => ?_) ts
  · rcases ts with _ | ⟨t, ts⟩
    · show (Rule.types []).read? = _
      rw [Rule.types]
      rfl
    rw [← ofRule_typeDecl] at hitem
    show (Rule.types (t :: ts)).read? = none
    rw [Rule.read?_types, show (Rule.typeDecl (t :: ts)).read? = none from hitem]
    rfl
  · have hrule : (Rule.typeDecl ts).read? = some (a, rest) := (congrFun ofRule_typeDecl ts).trans hitem
    have hlt := Rule.length_lt_of_attributed a rest hrule
    refine ⟨hlt, ?_⟩
    rcases ts with _ | ⟨t, ts⟩
    · cases hlt
    show (Rule.types (t :: ts)).read? = _
    rw [Rule.read?_types, hrule]
    rfl

/-- The rules read a module where it can be read by trial, and read the same one. -/
theorem ofRule_module : ofRule Rule.module = module := by
  rw [Rule.module, Rule.exactly, ofRule_bind, ofRule_token, module]
  simp only [ofRule_bind, ofRule_path, ofRule_types, ofRule_pure, bind_assoc, pure_bind]
  rfl

end Attempt

/-- One token of lookahead loses no module: what is read of a text is what trying the alternatives in order, and going
back where one fails, reads of its tokens. -/
theorem module?_parse (source : String) : (parse source).module? = Attempt.module.run' (lex source).tokens := by
  have h : (Rule.module (lex source).tokens).read? = Attempt.module (lex source).tokens :=
    congrFun Attempt.ofRule_module _
  rw [StateT.run', ← h, parse]
  cases Rule.module (lex source).tokens <;> rfl

end AdviceWeaving
