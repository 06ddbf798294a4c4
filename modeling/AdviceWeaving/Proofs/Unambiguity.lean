import AdviceWeaving.Proofs.Derived
import AdviceWeaving.Proofs.RoundTrip

/-!
# The grammar is unambiguous

Every phrase tells from its tokens where it ends and how it is built (`Unambiguous`), but for the lines of a body: a
word in front of a colon is a label, so that a line can only be told in front of something other than a colon.
`parse_eq_some_iff` puts this beside what the rules read: a text without stray parts gives exactly the value of its
derivation, and tokens without a derivation that has a value are complained of.
-/

namespace AdviceWeaving

open Rule (startsOther startsOther_append startsOther_attributes startsOther_colon startsOther_colon_operand
  startsOther_declaration startsOther_directive)

/-- In front of what may follow it, a tree is told by its tokens. -/
def Unambiguous {δ : Type} (follows : List Token → Prop) (tokens : δ → List Token) : Prop :=
  ∀ d d' us us', follows us → follows us' → tokens d ++ us = tokens d' ++ us' → d = d' ∧ us = us'

/-- Anything may follow. -/
def anything (_ : List Token) : Prop :=
  True

/-- The tokens start with the token `t`. -/
def startsWith (t : Token) (us : List Token) : Prop :=
  us.head? = some t

private theorem startsWith_cons (t : Token) (us : List Token) : startsWith t (t :: us) :=
  rfl

section

variable {δ : Type} {tokens : δ → List Token} {follows ends : List Token → Prop}

/-- As many trees as there are, if each may be followed by a further one, and what ends them starts none. -/
private theorem Unambiguous.flatMap (h : Unambiguous follows tokens)
    (hends : ∀ d us us', ends us → us ≠ tokens d ++ us')
    (hfollows : ∀ (ds : List δ) us, ends us → follows (ds.flatMap tokens ++ us)) :
    Unambiguous ends (fun ds : List δ => ds.flatMap tokens) := by
  intro ds ds' us us' hus hus' heq
  induction ds generalizing ds' with
  | nil =>
    cases ds' with
    | nil => exact ⟨rfl, heq⟩
    | cons d' ds' =>
      simp only [List.flatMap_cons, List.append_assoc] at heq
      exact (hends d' us _ hus heq).elim
  | cons d ds ih =>
    cases ds' with
    | nil =>
      simp only [List.flatMap_cons, List.append_assoc] at heq
      exact (hends d us' _ hus' heq.symm).elim
    | cons d' ds' =>
      simp only [List.flatMap_cons, List.append_assoc] at heq
      obtain ⟨rfl, hrest⟩ := h d d' _ _ (hfollows ds us hus) (hfollows ds' us' hus') heq
      obtain ⟨rfl, rfl⟩ := ih ds' hrest
      exact ⟨rfl, rfl⟩

/-- As many trees as there are, and the token that ends them. -/
private theorem Unambiguous.closed {close : Token}
    (h : Unambiguous (startsWith close) (fun ds : List δ => ds.flatMap tokens)) :
    Unambiguous anything (fun ds : List δ => ds.flatMap tokens ++ [close]) := by
  intro ds ds' us us' _ _ heq
  simp only [List.append_assoc] at heq
  obtain ⟨rfl, hend⟩ := h ds ds' _ _ (startsWith_cons _ _) (startsWith_cons _ _) heq
  exact ⟨rfl, (List.cons.inj hend).2⟩

/-- A tree that may be missing. -/
private theorem Unambiguous.elim (h : Unambiguous anything tokens)
    (hends : ∀ d us us', ends us → us ≠ tokens d ++ us') :
    Unambiguous ends (fun x : Option δ => x.elim [] tokens) := by
  rintro (_ | d) (_ | d') us us' hus hus' heq
  · exact ⟨rfl, heq⟩
  · exact (hends d' us us' hus heq).elim
  · exact (hends d us' us hus' heq.symm).elim
  · obtain ⟨rfl, rfl⟩ := h d d' us us' trivial trivial heq
    exact ⟨rfl, rfl⟩

/-- A token that may be missing. -/
private theorem unambiguous_flag (t : Token) :
    Unambiguous (startsOther t ·) (fun there : Bool => if there then [t] else []) := by
  rintro (_ | _) (_ | _) us us' hus hus' heq
  · exact ⟨rfl, heq⟩
  · simp [show us = t :: us' from heq, startsOther] at hus
  · simp [show us' = t :: us from heq.symm, startsOther] at hus'
  · exact ⟨rfl, (List.cons.inj heq).2⟩

private theorem unambiguous_parenTokens (h : Unambiguous anything tokens)
    (hclose : ∀ d, startsOther (.mark .closeParen) (tokens d)) :
    Unambiguous anything (fun ds : List δ => parenTokens (ds.map tokens)) := by
  have hitem : Unambiguous anything (fun d => .mark .comma :: tokens d) := by
    intro d d' us us' hus hus' heq
    exact h d d' us us' hus hus' (List.cons.inj heq).2
  have hfurther : Unambiguous anything
      (fun ds : List δ => ds.flatMap (.mark .comma :: tokens ·) ++ [.mark .closeParen]) :=
    (hitem.flatMap (fun d us us' hus heq => by simp [heq, startsWith] at hus) fun _ _ _ => trivial).closed
  have hnonempty (d : δ) (us us' : List Token) : .mark .closeParen :: us ≠ tokens d ++ us' := by
    intro heq
    have hother : startsOther (.mark .closeParen) (tokens d ++ us') := startsOther_append (hclose d)
    simp [← heq, startsOther] at hother
  intro ds ds' us us' _ _ heq
  simp only [parenTokens, List.cons_append, List.cons.injEq, true_and] at heq
  cases ds with
  | nil =>
    cases ds' with
    | nil => exact ⟨rfl, (List.cons.inj heq).2⟩
    | cons d' ds' =>
      rw [List.map_cons, itemTokens.eq_2, List.append_assoc] at heq
      exact (hnonempty d' _ _ heq).elim
  | cons d ds =>
    cases ds' with
    | nil =>
      rw [List.map_cons, itemTokens.eq_2, List.append_assoc] at heq
      exact (hnonempty d _ _ heq.symm).elim
    | cons d' ds' =>
      simp only [List.map_cons, itemTokens, furtherTokens, List.flatMap_map, List.append_assoc (tokens _)] at heq
      obtain ⟨rfl, hrest⟩ := h d d' _ _ trivial trivial heq
      obtain ⟨rfl, rfl⟩ := hfurther ds ds' us us' trivial trivial hrest
      exact ⟨rfl, rfl⟩

end

/-! ### References -/

private theorem NameTree.token_injective : Function.Injective token := by
  rintro (name | name) (name' | name') h <;> cases h <;> rfl

private theorem unambiguous_typeListTokens : Unambiguous anything typeListTokens :=
  unambiguous_parenTokens (fun name name' us us' _ _ heq => by simpa using heq) fun _ => rfl

private theorem unambiguous_fieldTree : Unambiguous anything FieldTree.tokens := by
  rintro ⟨declaring, name, type⟩ ⟨declaring', name', type'⟩ us us' - - heq
  simp only [FieldTree.tokens, List.cons_append, List.nil_append, List.cons.injEq, Token.path.injEq, true_and] at heq
  obtain ⟨rfl, hname, rfl, rfl⟩ := heq
  exact ⟨by rw [NameTree.token_injective hname], rfl⟩

private theorem unambiguous_methodTree : Unambiguous anything MethodTree.tokens := by
  rintro ⟨onInstance, declaring, name, params, ret⟩ ⟨onInstance', declaring', name', params', ret'⟩ us us' - - heq
  simp only [MethodTree.tokens, List.append_assoc] at heq
  obtain ⟨rfl, hbehind⟩ := unambiguous_flag _ onInstance onInstance' _ _ rfl rfl heq
  simp only [List.cons_append, List.append_assoc, List.cons.injEq, Token.path.injEq, true_and] at hbehind
  obtain ⟨rfl, hname, hrest⟩ := hbehind
  obtain ⟨rfl, hend⟩ := unambiguous_typeListTokens params params' _ _ trivial trivial hrest
  cases hend
  exact ⟨by rw [NameTree.token_injective hname], rfl⟩

/-! ### Attributes -/

private theorem Argument.token_injective : Function.Injective Argument.token := by
  rintro (value | value | path) (value' | value' | path') h <;> cases h <;> rfl

private theorem unambiguous_argumentTokens :
    Unambiguous anything (fun args : List Argument => parenTokens (args.map ([·.token]))) :=
  unambiguous_parenTokens
    (fun x x' us us' _ _ heq => ⟨Argument.token_injective (List.cons.inj heq).1, (List.cons.inj heq).2⟩)
    fun x => by cases x <;> rfl

private theorem unambiguous_attributeTree : Unambiguous anything AttributeTree.tokens := by
  have hargs : Unambiguous (startsWith (.mark .closeBracket)) (fun args : Option (List Argument) =>
      args.elim [] (fun args => parenTokens (args.map ([·.token])))) := by
    refine unambiguous_argumentTokens.elim fun args us us' hus heq => ?_
    simp [heq, startsWith, parenTokens] at hus
  rintro ⟨name, args⟩ ⟨name', args'⟩ us us' - - heq
  simp only [AttributeTree.tokens, List.cons_append, List.append_assoc, List.cons.injEq, Token.path.injEq,
    true_and] at heq
  obtain ⟨rfl, hrest⟩ := heq
  obtain ⟨rfl, hend⟩ := hargs args args' _ _ (startsWith_cons _ _) (startsWith_cons _ _) hrest
  exact ⟨rfl, (List.cons.inj hend).2⟩

/-- Attributes, in front of something else. -/
private theorem unambiguous_attributeTrees :
    Unambiguous (startsOther (.mark .openBracket) ·) (fun ds : List AttributeTree => ds.flatMap (·.tokens)) := by
  refine unambiguous_attributeTree.flatMap (fun d us us' hus heq => ?_) fun _ _ _ => trivial
  simp [heq, AttributeTree.tokens, startsOther] at hus

/-! ### Bodies -/

private theorem unambiguous_operandTree (kind : OperandKind) :
    Unambiguous anything (OperandTree.tokens : OperandTree kind → List Token) := by
  intro d d' us us' _ _ heq
  cases d with
  | none =>
    cases d'
    exact ⟨rfl, heq⟩
  | field sig =>
    obtain - | - | - | - | - | sig' := d'
    obtain ⟨rfl, rfl⟩ := unambiguous_fieldTree sig sig' us us' trivial trivial heq
    exact ⟨rfl, rfl⟩
  | method sig =>
    cases d' with
    | method sig' =>
      obtain ⟨rfl, rfl⟩ := unambiguous_methodTree sig sig' us us' trivial trivial heq
      exact ⟨rfl, rfl⟩
  | int32 | int64 | index | string | label =>
    cases d'
    cases heq
    exact ⟨rfl, rfl⟩

/-- A line in front of something other than a colon. -/
private theorem unambiguous_lineTree : Unambiguous (startsOther (.mark .colon) ·) LineTree.tokens := by
  have hcolon (word : String) (l : LineTree) {us us' : List Token} (hus : startsOther (.mark .colon) us) :
      .path l.mnemonic :: (l.operand.tokens ++ us) ≠ .path word :: .mark .colon :: us' := by
    intro heq
    have hother := startsOther_colon_operand hus l.operand
    rw [(List.cons.inj heq).2] at hother
    cases hother
  have hinstruction {l l' : LineTree} (hlabel : l.label = l'.label) {us us' : List Token}
      (heq : Token.path l.mnemonic :: (l.operand.tokens ++ us) = .path l'.mnemonic :: (l'.operand.tokens ++ us')) :
      l = l' ∧ us = us' := by
    obtain ⟨label, mnemonic, kind, hkind, d⟩ := l
    obtain ⟨label', mnemonic', kind', hkind', d'⟩ := l'
    simp only [List.cons.injEq, Token.path.injEq] at hlabel heq
    obtain ⟨rfl, hrest⟩ := heq
    obtain rfl : kind = kind' := Option.some.inj (hkind.symm.trans hkind')
    obtain ⟨rfl, rfl⟩ := unambiguous_operandTree kind d d' us us' trivial trivial hrest
    exact ⟨by rw [hlabel], rfl⟩
  rintro l l' us us' hus hus' heq
  cases hl : l.label with
  | none =>
    cases hl' : l'.label with
    | none => exact hinstruction (hl.trans hl'.symm) (by simpa [LineTree.tokens, hl, hl'] using heq)
    | some label' =>
      simp only [LineTree.tokens, hl, hl', Option.elim, List.cons_append, List.nil_append] at heq
      exact (hcolon label' l hus heq).elim
  | some label =>
    cases hl' : l'.label with
    | none =>
      simp only [LineTree.tokens, hl, hl', Option.elim, List.cons_append, List.nil_append] at heq
      exact (hcolon label l' hus' heq.symm).elim
    | some label' =>
      simp only [LineTree.tokens, hl, hl', Option.elim, List.cons_append, List.nil_append, List.cons.injEq,
        Token.path.injEq, true_and] at heq
      obtain ⟨rfl, hword, hrest⟩ := heq
      exact hinstruction (hl.trans hl'.symm) (by rw [hword, hrest])

private theorem unambiguous_linesTokens : Unambiguous anything BodyTree.linesTokens := by
  refine Unambiguous.closed (unambiguous_lineTree.flatMap (fun l us us' hus heq => ?_) fun ls us hus => ?_)
  · obtain ⟨_ | label, _, _, _, d⟩ := l <;> simp [heq, LineTree.tokens, startsWith] at hus
  · obtain ⟨us, rfl⟩ := List.head?_eq_some_iff.1 hus
    have hother := startsOther_colon ls us
    rwa [BodyTree.linesTokens, List.append_assoc] at hother


private theorem unambiguous_bodyTree : Unambiguous anything BodyTree.tokens := by
  have hlocals : Unambiguous (startsOther (.directive .locals) ·)
      (fun x : Option (List String) => x.elim [] (fun types => .directive .locals :: typeListTokens types)) := by
    refine Unambiguous.elim (fun types types' us us' hus hus' heq => ?_) fun types us us' hus heq => ?_
    · exact unambiguous_typeListTokens types types' us us' hus hus' (List.cons.inj heq).2
    · simp [heq, startsOther] at hus
  have hbehind (initLocals : Bool) (lines : List LineTree) (us : List Token) : startsOther (.directive .locals)
      ((if initLocals then [.directive .initLocals] else []) ++ (BodyTree.linesTokens lines ++ us)) := by
    cases initLocals with
    | true => rfl
    | false =>
      rw [if_neg Bool.false_ne_true, List.nil_append]
      exact startsOther_append (startsOther_directive lines)
  rintro ⟨locals, initLocals, lines⟩ ⟨locals', initLocals', lines'⟩ us us' - - heq
  simp only [BodyTree.tokens, BodyTree.rest, List.cons_append, List.append_assoc, List.cons.injEq, true_and] at heq
  obtain ⟨rfl, hrest⟩ := hlocals locals locals' _ _ (hbehind _ _ _) (hbehind _ _ _) heq
  obtain ⟨rfl, hlines⟩ := unambiguous_flag _ initLocals initLocals' _ _
    (startsOther_append (startsOther_directive lines)) (startsOther_append (startsOther_directive lines')) hrest
  obtain ⟨rfl, rfl⟩ := unambiguous_linesTokens lines lines' us us' trivial trivial hlines
  exact ⟨rfl, rfl⟩

/-! ### Members -/

private theorem unambiguous_paramTree : Unambiguous anything ParamTree.tokens := by
  rintro ⟨attributes, name, type⟩ ⟨attributes', name', type'⟩ us us' - - heq
  simp only [ParamTree.tokens, List.append_assoc] at heq
  obtain ⟨rfl, hrest⟩ := unambiguous_attributeTrees attributes attributes' _ _ rfl rfl heq
  cases hrest
  exact ⟨rfl, rfl⟩

/-- A body, or a semicolon for none. -/
private theorem unambiguous_bodyOrNone :
    Unambiguous anything (fun body : Option BodyTree => body.elim [.mark .semicolon] (·.tokens)) := by
  rintro (_ | body) (_ | body') us us' - - heq
  · exact ⟨rfl, (List.cons.inj heq).2⟩
  · cases heq
  · cases heq
  · obtain ⟨rfl, rfl⟩ := unambiguous_bodyTree body body' us us' trivial trivial heq
    exact ⟨rfl, rfl⟩

namespace DeclarationTree

/-- The modifiers of a field or a method, in front of its keyword. -/
private theorem unambiguous_modifiers :
    Unambiguous (fun us => startsWith (.keyword .field) us ∨ startsWith (.keyword .method) us)
      (fun x : Option Access × Bool => modifiers x.1 x.2) := by
  have haccess : Unambiguous (fun us => ∀ access : Access, startsOther (.keyword access.keyword) us)
      (fun access : Option Access => access.elim [] ([.keyword ·.keyword])) := by
    refine Unambiguous.elim (fun access access' us us' _ _ heq => ?_) fun access us us' hus heq => ?_
    · cases access <;> cases access' <;> cases heq <;> exact ⟨rfl, rfl⟩
    · have hother := hus access
      simp [heq, startsOther] at hother
  have hother {us : List Token} (hus : startsWith (.keyword .field) us ∨ startsWith (.keyword .method) us) :
      startsOther (.keyword .static) us ∧ ∀ (access : Access) (isStatic : Bool),
        startsOther (.keyword access.keyword) ((if isStatic then [.keyword .static] else []) ++ us) := by
    obtain hus | hus := hus
    all_goals
      obtain ⟨us, rfl⟩ := List.head?_eq_some_iff.1 hus
      exact ⟨rfl, fun access isStatic => by cases access <;> cases isStatic <;> rfl⟩
  rintro ⟨access, isStatic⟩ ⟨access', isStatic'⟩ us us' hus hus' heq
  simp only [modifiers, List.append_assoc] at heq
  obtain ⟨rfl, hrest⟩ := haccess access access' _ _ (fun _ => (hother hus).2 _ _) (fun _ => (hother hus').2 _ _) heq
  obtain ⟨rfl, rfl⟩ := unambiguous_flag _ isStatic isStatic' us us' (hother hus).1 (hother hus').1 hrest
  exact ⟨rfl, rfl⟩

private theorem methodTokens_inj {name name' : NameTree} {params params' : List ParamTree} {ret ret' : String}
    {body body' : Option BodyTree} {us us' : List Token}
    (heq : methodTokens name params ret body ++ us = methodTokens name' params' ret' body' ++ us') :
    name = name' ∧ params = params' ∧ ret = ret' ∧ body = body' ∧ us = us' := by
  have hparams : Unambiguous anything (fun params : List ParamTree => parenTokens (params.map (·.tokens))) :=
    unambiguous_parenTokens unambiguous_paramTree fun p => startsOther_attributes (by decide) rfl
  simp only [methodTokens, List.cons_append, List.append_assoc, List.cons.injEq] at heq
  obtain ⟨hname, hrest⟩ := heq
  obtain ⟨rfl, hbehind⟩ := hparams params params' _ _ trivial trivial hrest
  simp only [List.cons.injEq, Token.path.injEq, true_and] at hbehind
  obtain ⟨rfl, hbody⟩ := hbehind
  obtain ⟨rfl, rfl⟩ := unambiguous_bodyOrNone body body' us us' trivial trivial hbody
  exact ⟨NameTree.token_injective hname, rfl, rfl, rfl, rfl⟩

end DeclarationTree

private theorem unambiguous_declarationTree : Unambiguous anything DeclarationTree.tokens := by
  -- a declaration that is no property does not start as one
  have hproperty (access : Option Access) (isStatic : Bool) {k : Keyword} (hk : k ≠ .property)
      (us us' : List Token) :
      .keyword .property :: us ≠ DeclarationTree.modifiers access isStatic ++ .keyword k :: us' := by
    rcases access with _ | _ | _ <;> cases isStatic <;> simp [DeclarationTree.modifiers, Access.keyword, hk.symm]
  rintro (⟨access, isStatic, name, type⟩ | ⟨name, type⟩ | ⟨access, isStatic, name, params, ret, body⟩)
    (⟨access', isStatic', name', type'⟩ | ⟨name', type'⟩ | ⟨access', isStatic', name', params', ret', body'⟩)
    us us' - - heq <;>
    simp only [DeclarationTree.tokens, List.append_assoc, List.cons_append] at heq
  case property.property =>
    cases heq
    exact ⟨rfl, rfl⟩
  case property.field => exact (hproperty _ _ (by decide) _ _ heq).elim
  case property.method => exact (hproperty _ _ (by decide) _ _ heq).elim
  case field.property => exact (hproperty _ _ (by decide) _ _ heq.symm).elim
  case method.property => exact (hproperty _ _ (by decide) _ _ heq.symm).elim
  case field.field =>
    obtain ⟨hmodifiers, hrest⟩ := DeclarationTree.unambiguous_modifiers (access, isStatic) (access', isStatic') _ _
      (.inl (startsWith_cons _ _)) (.inl (startsWith_cons _ _)) heq
    cases hmodifiers
    cases hrest
    exact ⟨rfl, rfl⟩
  case field.method =>
    obtain ⟨-, hrest⟩ := DeclarationTree.unambiguous_modifiers (access, isStatic) (access', isStatic') _ _
      (.inl (startsWith_cons _ _)) (.inr (startsWith_cons _ _)) heq
    cases hrest
  case method.field =>
    obtain ⟨-, hrest⟩ := DeclarationTree.unambiguous_modifiers (access, isStatic) (access', isStatic') _ _
      (.inr (startsWith_cons _ _)) (.inl (startsWith_cons _ _)) heq
    cases hrest
  case method.method =>
    obtain ⟨hmodifiers, hrest⟩ := DeclarationTree.unambiguous_modifiers (access, isStatic) (access', isStatic') _ _
      (.inr (startsWith_cons _ _)) (.inr (startsWith_cons _ _)) heq
    cases hmodifiers
    obtain ⟨rfl, rfl, rfl, rfl, rfl⟩ := DeclarationTree.methodTokens_inj (List.cons.inj hrest).2
    exact ⟨rfl, rfl⟩

private theorem unambiguous_memberTree : Unambiguous anything MemberTree.tokens := by
  rintro ⟨attributes, declaration⟩ ⟨attributes', declaration'⟩ us us' - - heq
  simp only [MemberTree.tokens, List.append_assoc] at heq
  obtain ⟨rfl, hrest⟩ := unambiguous_attributeTrees attributes attributes' _ _
    (startsOther_append (startsOther_declaration declaration))
    (startsOther_append (startsOther_declaration declaration')) heq
  obtain ⟨rfl, rfl⟩ := unambiguous_declarationTree declaration declaration' us us' trivial trivial hrest
  exact ⟨rfl, rfl⟩

/-! ### Types and modules -/

private theorem unambiguous_membersTokens : Unambiguous anything TypeTree.membersTokens := by
  refine Unambiguous.closed (unambiguous_memberTree.flatMap (fun d us us' hus heq => ?_) fun _ _ _ => trivial)
  obtain ⟨us, rfl⟩ := List.head?_eq_some_iff.1 hus
  have hother : startsOther (.mark .closeBrace) (d.tokens ++ us') :=
    startsOther_append (startsOther_attributes (by decide) (startsOther_declaration d.declaration))
  simp [← heq, startsOther] at hother

private theorem unambiguous_typeTree : Unambiguous anything TypeTree.tokens := by
  have hbase : Unambiguous (startsWith (.mark .openBrace))
      (fun base : Option String => base.elim [] ([.keyword .inherits, .path ·])) := by
    refine Unambiguous.elim (fun name name' us us' _ _ heq => ?_) fun name us us' hus heq => ?_
    · cases heq
      exact ⟨rfl, rfl⟩
    · simp [heq, startsWith] at hus
  rintro ⟨attributes, kind, name, base, members⟩ ⟨attributes', kind', name', base', members'⟩ us us' - - heq
  simp only [TypeTree.tokens, TypeTree.rest, List.append_assoc, List.cons_append] at heq
  obtain ⟨rfl, hrest⟩ := unambiguous_attributeTrees attributes attributes' _ _ rfl rfl heq
  simp only [List.cons.injEq, Token.keyword.injEq, Token.path.injEq] at hrest
  obtain ⟨hkind, rfl, hbehind⟩ := hrest
  obtain rfl : kind = kind' := by cases kind <;> cases kind' <;> first | rfl | cases hkind
  obtain ⟨rfl, hbody⟩ := hbase base base' _ _ (startsWith_cons _ _) (startsWith_cons _ _) hbehind
  obtain ⟨rfl, rfl⟩ := unambiguous_membersTokens members members' us us' trivial trivial (List.cons.inj hbody).2
  exact ⟨rfl, rfl⟩

/-- The tokens of a module have no other derivation. -/
private theorem ModuleTree.tokens_injective : Function.Injective tokens := by
  have htypes : Unambiguous (· = []) (fun ds : List TypeTree => ds.flatMap (·.tokens)) := by
    refine unambiguous_typeTree.flatMap (fun d us us' hus heq => ?_) fun _ _ _ => trivial
    simp [hus, TypeTree.tokens] at heq
  rintro ⟨name, types⟩ ⟨name', types'⟩ heq
  simp only [tokens, List.cons.injEq, Token.path.injEq, true_and] at heq
  obtain ⟨rfl, hrest⟩ := heq
  obtain ⟨rfl, -⟩ := htypes types types' [] [] rfl rfl (by simpa using hrest)
  rfl

/-! ### Reading what the grammar derives -/

/-- A text without stray parts is read as the value of a derivation of its tokens, and not otherwise. -/
theorem parse_eq_some_iff {source : String} (hstrays : (lex source).strays = []) (m : Module) :
    parse source = ⟨some m, []⟩ ↔
      ∃ d : ModuleTree, d.tokens = (lex source).tokens.map (·.token) ∧ d.value = some m := by
  constructor
  · intro hparse
    have hcomplaints : (parse source).complaints = [] := by rw [hparse]
    obtain ⟨-, m', rest, hread, hparse'⟩ := read?_of_complaints_eq_nil hcomplaints
    obtain rfl : m' = m := by
      rw [hparse] at hparse'
      cases hparse'
      rfl
    obtain ⟨front, hfront, d, htokens, hvalue⟩ := Rule.takes_module _ m' rest hread
    obtain rfl := Rule.rest_of_read?_module hread
    exact ⟨d, by rw [htokens, hfront, List.append_nil], hvalue⟩
  · rintro ⟨d, htokens, hvalue⟩
    have hread := Rule.read?_moduleTree d htokens.symm
    rw [hvalue] at hread
    exact parse_eq_of_read? hstrays hread

/-- A text without stray parts gives a module, or one complaint. -/
private theorem parse_eq_some_or_none {source : String} (hstrays : (lex source).strays = []) :
    (∃ m, parse source = ⟨some m, []⟩) ∨ ∃ c, parse source = ⟨none, [c]⟩ := by
  unfold parse
  cases hread : Rule.module (lex source).tokens with
  | ok found => exact .inl ⟨found.1, by simp only [hread, hstrays, List.map_nil]⟩
  | error fault =>
    exact .inr ⟨fault.complaint source.utf8ByteSize, by simp only [hread, hstrays, List.map_nil, List.nil_append]⟩

/-- The grammar is what is read. A text without stray parts is read as a module just if its tokens have a derivation
with the module as its value; if they have none with a value, there is no module and one complaint; and no tokens have
two derivations. -/
theorem parse_iff_derivable :
    (∀ source, (lex source).strays = [] → ∀ m, parse source = ⟨some m, []⟩ ↔
      ∃ d : ModuleTree, d.tokens = (lex source).tokens.map (·.token) ∧ d.value = some m) ∧
    (∀ source, (lex source).strays = [] →
      (∀ d : ModuleTree, d.tokens = (lex source).tokens.map (·.token) → d.value = none) →
        ∃ c, parse source = ⟨none, [c]⟩) ∧
    ∀ d d' : ModuleTree, d.tokens = d'.tokens → d = d' := by
  refine ⟨fun source hstrays m => parse_eq_some_iff hstrays m, fun source hstrays hnone => ?_,
    fun d d' heq => ModuleTree.tokens_injective heq⟩
  obtain ⟨m, hparse⟩ | hcomplaint := parse_eq_some_or_none hstrays
  · obtain ⟨d, htokens, hvalue⟩ := (parse_eq_some_iff hstrays m).1 hparse
    rw [hnone d htokens] at hvalue
    cases hvalue
  · exact hcomplaint

/-- A text with one method, whose body has the given lines. -/
def ModuleTree.textOfLines (lines : String) : String :=
  "module demo class demo.C \x7b static method run() -> void \x7b " ++ lines ++ " \x7d \x7d"

/-- The tree of such a text. -/
def ModuleTree.ofLines (lines : List LineTree) : ModuleTree where
  name := "demo"
  types := [
    { attributes := [], kind := .classType, name := "demo.C", base := none
      members := [⟨[], .method none true (.path "run") [] "void" (some ⟨none, false, lines⟩)⟩] }]

/-- Two labels that are spelled like mnemonics, one of them like that of the line in front of it. -/
def ModuleTree.labelled : ModuleTree :=
  .ofLines [⟨some "br", "ldstr", .string, by decide, .string "x"⟩, ⟨none, "pop", .none, by decide, .none⟩,
    ⟨some "pop", "br", .label, by decide, .label "br"⟩]

/-- A branch to a label that only a mnemonic is spelled like. -/
def ModuleTree.unlabelled : ModuleTree :=
  .ofLines [⟨none, "ldstr", .string, by decide, .string "x"⟩, ⟨none, "pop", .none, by decide, .none⟩,
    ⟨none, "br", .label, by decide, .label "pop"⟩]

/-- The lines of the first text have one reading, with a value; those of the second have one reading, but its branch has
no target. -/
theorem parse_iff_derivable_labels :
    ((lex (ModuleTree.textOfLines "br: ldstr \"x\" pop pop: br br")).strays = [] ∧
      ∃ m, ModuleTree.labelled.value = some m ∧
        parse (ModuleTree.textOfLines "br: ldstr \"x\" pop pop: br br") = ⟨some m, []⟩) ∧
    ((lex (ModuleTree.textOfLines "ldstr \"x\" pop br pop")).strays = [] ∧
      ∃ c, parse (ModuleTree.textOfLines "ldstr \"x\" pop br pop") = ⟨none, [c]⟩) := by
  have hstrays : (lex (ModuleTree.textOfLines "br: ldstr \"x\" pop pop: br br")).strays = [] := by decide +kernel
  have hstrays' : (lex (ModuleTree.textOfLines "ldstr \"x\" pop br pop")).strays = [] := by decide +kernel
  have htokens : ModuleTree.labelled.tokens =
      (lex (ModuleTree.textOfLines "br: ldstr \"x\" pop pop: br br")).tokens.map (·.token) := by decide +kernel
  have htokens' : ModuleTree.unlabelled.tokens =
      (lex (ModuleTree.textOfLines "ldstr \"x\" pop br pop")).tokens.map (·.token) := by decide +kernel
  obtain ⟨m, hvalue⟩ : ∃ m, ModuleTree.labelled.value = some m := Option.isSome_iff_exists.1 (by decide +kernel)
  refine ⟨⟨hstrays, m, hvalue, (parse_iff_derivable.1 _ hstrays m).2 ⟨ModuleTree.labelled, htokens, hvalue⟩⟩,
    hstrays', parse_iff_derivable.2.1 _ hstrays' fun d hd => ?_⟩
  rw [parse_iff_derivable.2.2 d ModuleTree.unlabelled (hd.trans htokens'.symm)]
  decide +kernel

end AdviceWeaving
