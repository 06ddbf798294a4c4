import AdviceWeaving.Proofs.Derivable

/-!
# Reading printed modules

What is written of a part of a module is one of its derivations, `Module.tree` and its like.  Its tokens are those that
are written, and its value is the part, if its names can be read back and its branches stay inside their bodies: the
lines of a body name labels, and a label is that of the instruction at the index that it tells
(`toOption_resolve_printed`).  So the tokens of a module are read as the module, without its identifiers, exactly if
all its targets are in range (`Module.value_tree`).
-/

namespace AdviceWeaving

/-- Going through a list where each value passes a check. -/
private theorem mapM_check {α β : Type} {P : α → Prop} [DecidablePred P] {f : α → β} {g : α → Option β} {xs : List α}
    (h : ∀ x ∈ xs, g x = if P x then some (f x) else none) :
    xs.mapM g = if ∀ x ∈ xs, P x then some (xs.map f) else none := by
  induction xs with
  | nil => rfl
  | cons x xs ih =>
    rw [List.mapM_cons, h x (by simp), ih fun y hy => h y (by simp [hy])]
    by_cases hx : P x
    · by_cases hxs : ∀ y ∈ xs, P y
      · rw [if_pos hx, if_pos hxs, if_pos (List.forall_mem_cons.2 ⟨hx, hxs⟩)]
        rfl
      · rw [if_pos hx, if_neg hxs, if_neg fun h => hxs (List.forall_mem_cons.1 h).2]
        rfl
    · rw [if_neg hx, if_neg fun h => hx (List.forall_mem_cons.1 h).1]
      rfl

private theorem toOption_mapM {ε α β : Type} (f : α → Except ε β) (xs : List α) :
    (xs.mapM f).toOption = xs.mapM fun x => (f x).toOption := by
  induction xs with
  | nil => rfl
  | cons x xs ih =>
    rw [List.mapM_cons, List.mapM_cons, ← ih]
    cases f x with
    | error e => rfl
    | ok b => cases xs.mapM f <;> rfl

/-- The operand of an instruction, as it is written. -/
def Instruction.written : Instruction → WrittenOperand
  | .branch _ target => .line (label target.toNat)
  | i => .complete i.operand

/-- The line of an instruction at an index. -/
def printedLine : Instruction × Nat → Line
  | (i, index) => ⟨some (label index), i.mnemonic, i.written⟩

/-! ### Resolving printed lines -/

private theorem repeatedLabel?_printed (code : List Instruction) (k : Nat) {seen : List String}
    (h : ∀ j, k ≤ j → label j ∉ seen) :
    repeatedLabel? seen ((code.zipIdx k).map printedLine) = none := by
  induction code generalizing k seen with
  | nil => rfl
  | cons i code ih =>
    rw [List.zipIdx_cons, List.map_cons, printedLine, repeatedLabel?, if_neg (h k (Nat.le_refl k))]
    refine ih (k + 1) fun j hj hmem => ?_
    obtain heq | hmem := List.mem_cons.1 hmem
    · have := label_injective heq
      omega
    · exact h j (by omega) hmem

/-- The label of an index is found at that index. -/
private theorem lineIndex?_printed (code : List Instruction) (k target : Nat) :
    lineIndex? ((code.zipIdx k).map printedLine) (label (k + target)) =
      if target < code.length then some target else none := by
  induction code generalizing k target with
  | nil => rfl
  | cons i code ih =>
    rw [List.zipIdx_cons, List.map_cons, lineIndex?, List.findIdx?_cons]
    cases target with
    | zero => simp [printedLine]
    | succ target =>
      have hne : label k ≠ label (k + (target + 1)) := fun h => by
        have := label_injective h
        omega
      have htail := ih (k + 1) target
      rw [show k + 1 + target = k + (target + 1) by omega, lineIndex?] at htail
      rw [htail]
      by_cases hlt : target < code.length <;> simp [printedLine, hne, hlt]

private theorem toOption_resolve_printedLine (x : Instruction × Nat) {lines : List Line} {length : Nat}
    (hlines : ∀ target, lineIndex? lines (label target) = if target < length then some target else none) :
    ((printedLine x).resolve (lineIndex? lines)).toOption =
      if ∀ target ∈ x.1.target?, target.toNat < length then some x.1 else none := by
  obtain ⟨i, index⟩ := x
  have hok {o : Operand} (ho : i.written.resolve (lineIndex? lines) = .ok o) (hi : i.operand = o) :
      ((printedLine (i, index)).resolve (lineIndex? lines)).toOption = some i := by
    rw [Line.resolve_eq_ok_iff.2 ⟨o, ho, hi ▸ i.build_operand⟩]
    rfl
  cases i with
  | branch op target =>
    have hline := hlines target.toNat
    by_cases h : target.toNat < length
    · rw [if_pos h] at hline
      rw [hok (o := .label target) (by simp [Instruction.written, WrittenOperand.resolve, hline]) rfl,
        if_pos (by simpa [Instruction.target?] using h)]
    · rw [if_neg h] at hline
      have hfault : (printedLine (.branch op target, index)).resolve (lineIndex? lines) =
          .error (.unknown (label target.toNat)) :=
        Line.resolve_eq_error_iff.2 (.inl (by simp [printedLine, Instruction.written, WrittenOperand.resolve, hline]))
      rw [hfault, if_neg (by simpa [Instruction.target?] using h)]
      rfl
  | _ => exact (hok rfl rfl).trans (if_pos fun _ h => by cases h).symm

/-- Printed lines resolve exactly if all their branches stay inside the body. -/
theorem toOption_resolve_printed (body : Body) :
    (resolve (body.code.zipIdx.map printedLine)).toOption =
      if body.TargetsInRange then some body.code else none := by
  have hlines (target : Nat) := lineIndex?_printed body.code 0 target
  simp only [Nat.zero_add] at hlines
  rw [resolve, repeatedLabel?_printed body.code 0 (by simp)]
  simp only [toOption_mapM, List.mapM_map, Function.comp_def, toOption_resolve_printedLine _ hlines]
  rw [mapM_check (P := fun x : Instruction × Nat => ∀ target ∈ x.1.target?, target.toNat < body.code.length)
    (f := Prod.fst) fun _ _ => rfl]
  have hall : (∀ x ∈ body.code.zipIdx, ∀ target ∈ x.1.target?, target.toNat < body.code.length) ↔
      body.TargetsInRange := by
    refine ⟨fun h i hi => ?_, fun h x hx => h x.1 (List.fst_mem_of_mem_zipIdx hx)⟩
    obtain ⟨index, hindex, rfl⟩ := List.getElem_of_mem hi
    exact h (body.code[index], index) (List.mk_mem_zipIdx_iff_getElem?.2 (by simp [hindex]))
  rw [List.zipIdx_map_fst]
  simp only [hall]

/-! ### References -/

/-- How the name of a method or of a referenced member is written. -/
def printedName (name : String) : NameTree :=
  if name = Method.constructorName then .ctor .ctor
  else if name = Method.typeInitializerName then .ctor .cctor
  else .path name

private theorem token_printedName (name : String) : (printedName name).token = memberToken name := by
  unfold printedName memberToken
  split
  · rfl
  · split <;> rfl

private theorem value_printedName (name : String) : (printedName name).value = name := by
  unfold printedName
  split
  next h => exact h.symm
  split
  next h => exact h.symm
  next => rfl

def FieldSig.tree (f : FieldSig) : FieldTree :=
  ⟨f.declaring, printedName f.name, f.type.text⟩

private theorem FieldSig.tokens_tree (f : FieldSig) : f.tree.tokens = f.tokens := by
  simp [tree, FieldTree.tokens, tokens, token_printedName, ValueType.tokens]

theorem FieldSig.value_tree {f : FieldSig} (h : f.WellNamed) : f.tree.value = f := by
  simp [tree, FieldTree.value, value_printedName, ValueType.ofName_text h.2.2]

private theorem ofName_texts {types : List ValueType} (h : ∀ t ∈ types, t.WellNamed) :
    (types.map (·.text)).map .ofName = types := by
  rw [List.map_map]
  exact (List.map_congr_left fun t ht => ValueType.ofName_text (h t ht)).trans (List.map_id types)

private theorem typeListTokens_texts (types : List ValueType) :
    typeListTokens (types.map (·.text)) = parenTokens (types.map (·.tokens)) := by
  rw [typeListTokens, List.map_map]
  rfl

def MethodSig.tree (m : MethodSig) : MethodTree :=
  ⟨m.onInstance, m.declaring, printedName m.name, m.params.map (·.text), m.ret.text⟩

private theorem MethodSig.tokens_tree (m : MethodSig) : m.tree.tokens = m.tokens := by
  cases h : m.onInstance <;>
    simp [h, tree, MethodTree.tokens, tokens, token_printedName, typeListTokens_texts, ValueType.tokens]

theorem MethodSig.value_tree {m : MethodSig} (h : m.WellNamed) : m.tree.value = m := by
  simp only [tree, MethodTree.value, value_printedName, ofName_texts h.2.2.1, ValueType.ofName_text h.2.2.2]

/-! ### Attributes -/

def Attribute.tree (a : Attribute) : AttributeTree :=
  ⟨a.name, if a.args.isEmpty then none else some a.args⟩

private theorem Attribute.tokens_tree (a : Attribute) : a.tree.tokens = a.tokens := by
  obtain ⟨name, _ | ⟨x, xs⟩⟩ := a <;> rfl

theorem Attribute.value_tree (a : Attribute) : a.tree.value = a := by
  obtain ⟨name, _ | ⟨x, xs⟩⟩ := a <;> rfl

private theorem tokens_attributeTrees (as : List Attribute) :
    (as.map (·.tree)).flatMap (·.tokens) = as.flatMap (·.tokens) := by
  simp only [List.flatMap_map, Attribute.tokens_tree]

private theorem value_attributeTrees (as : List Attribute) : (as.map (·.tree)).map (·.value) = as := by
  simp [Function.comp_def, Attribute.value_tree]

/-! ### Bodies -/

def Instruction.operandTree : (i : Instruction) → OperandTree i.kind
  | .simple _ => .none
  | .ldcI4 value => .int32 (Int64.ofInt value.toInt)
  | .ldcI8 value => .int64 value
  | .ldstr value => .string value
  | .slot _ index => .index (Int64.ofInt index.toNat)
  | .field _ sig => .field sig.tree
  | .call _ sig => .method sig.tree
  | .branch _ target => .label (label target.toNat)

/-- The line of an instruction at an index, as it is written. -/
def lineTree : Instruction × Nat → LineTree
  | (i, index) => ⟨some (label index), i.mnemonic, i.kind, i.operandKind?_mnemonic, i.operandTree⟩

private theorem tokens_lineTree (x : Instruction × Nat) : (lineTree x).tokens = lineTokens x := by
  obtain ⟨i, index⟩ := x
  have hoperand : i.operandTree.tokens = i.operandTokens := by
    cases i with
    | field op sig => exact sig.tokens_tree
    | call op sig => exact sig.tokens_tree
    | _ => rfl
  simp [lineTree, LineTree.tokens, lineTokens, Instruction.tokens, hoperand]

private theorem value_lineTree {x : Instruction × Nat} (h : x.1.WellNamed) : (lineTree x).value = printedLine x := by
  obtain ⟨i, index⟩ := x
  have hoperand : i.operandTree.value = i.written := by
    cases i with
    | field op sig => exact congrArg (WrittenOperand.complete <| .field ·) (FieldSig.value_tree h)
    | call op sig => exact congrArg (WrittenOperand.complete <| .method ·) (MethodSig.value_tree h)
    | _ => rfl
  simp [lineTree, LineTree.value, printedLine, hoperand]

def Body.tree (body : Body) : BodyTree where
  locals := if body.locals.isEmpty then none else some (body.locals.toList.map (·.text))
  initLocals := body.initLocals
  lines := body.code.zipIdx.map lineTree

private theorem Body.tokens_tree (body : Body) : body.tree.rest = body.tokens := by
  have hlines : BodyTree.linesTokens (body.code.zipIdx.map lineTree) =
      body.code.zipIdx.flatMap lineTokens ++ [.mark .closeBrace] := by
    simp only [BodyTree.linesTokens, List.flatMap_map, tokens_lineTree]
  by_cases hempty : body.locals.isEmpty <;> cases hinit : body.initLocals <;>
    simp [BodyTree.rest, tree, tokens, hlines, hempty, hinit, typeListTokens_texts]

theorem Body.value_tree {body : Body} (h : body.WellNamed) :
    body.tree.value = if body.TargetsInRange then some body else none := by
  have hlines : (body.code.zipIdx.map lineTree).map (·.value) = body.code.zipIdx.map printedLine := by
    rw [List.map_map]
    exact List.map_congr_left fun x hx => value_lineTree (h.2 x.1 (List.fst_mem_of_mem_zipIdx hx))
  have hlocals : ((body.tree.locals.getD []).map ValueType.ofName).toArray = body.locals := by
    simp only [tree]
    split
    next hempty => simp [Array.isEmpty_iff.1 hempty]
    next => rw [Option.getD_some, ofName_texts h.1, Array.toArray_toList]
  rw [BodyTree.value, hlocals]
  simp only [tree, hlines, toOption_resolve_printed]
  split <;> rfl

/-! ### Members -/

def Param.tree (p : Param) : ParamTree :=
  ⟨p.attributes.map (·.tree), p.name, p.type.text⟩

private theorem Param.tokens_tree (p : Param) : p.tree.tokens = p.tokens := by
  simp only [tree, ParamTree.tokens, tokens, tokens_attributeTrees]
  rfl

theorem Param.value_tree {p : Param} (h : p.WellNamed) : p.tree.value = p := by
  simp only [tree, ParamTree.value, value_attributeTrees, ValueType.ofName_text h.2.1]

/-- The method before its module is numbered. -/
def Method.withoutId (m : Method) : Method :=
  { m with id := ⟨0⟩ }

namespace Rule.Member

/-- The tokens of a member. -/
def tokens : Member → List Token
  | .field f => f.tokens
  | .property p => p.tokens
  | .method m => m.tokens

/-- The member before its module is numbered. -/
def withoutId : Member → Member
  | .method m => .method m.withoutId
  | a => a

def WellNamed : Member → Prop
  | .field f => f.WellNamed
  | .property p => p.WellNamed
  | .method m => m.WellNamed

def TargetsInRange : Member → Prop
  | .method m => m.TargetsInRange
  | _ => True

instance : DecidablePred TargetsInRange
  | .method m => inferInstanceAs (Decidable m.TargetsInRange)
  | .field _ | .property _ => .isTrue trivial

def tree : Member → MemberTree
  | .field f => ⟨f.attributes.map (·.tree), .field (some f.access) f.isStatic f.name f.type.text⟩
  | .property p => ⟨p.attributes.map (·.tree), .property p.name p.type.text⟩
  | .method m => ⟨m.attributes.map (·.tree),
      .method (some m.access) m.isStatic (printedName m.name) (m.params.map (·.tree)) m.ret.text (m.body.map (·.tree))⟩

private theorem tokens_tree (a : Member) : a.tree.tokens = a.tokens := by
  cases a with
  | field f =>
    simp [tree, tokens, MemberTree.tokens, DeclarationTree.tokens, tokens_attributeTrees, Field.tokens,
      DeclarationTree.modifiers, modifierTokens, namedTokens, typedTokens, ValueType.tokens]
  | property p =>
    simp [tree, tokens, MemberTree.tokens, DeclarationTree.tokens, tokens_attributeTrees, Property.tokens,
      namedTokens, typedTokens, ValueType.tokens]
  | method m =>
    have hbody : (m.body.map (·.tree)).elim [.mark .semicolon] (·.tokens) =
        m.body.elim [.mark .semicolon] (.mark .openBrace :: ·.tokens) := by
      cases m.body with
      | none => rfl
      | some body => simp [BodyTree.tokens, Body.tokens_tree]
    have hparams : (m.params.map (·.tree)).map (·.tokens) = m.params.map (·.tokens) := by
      simp [Function.comp_def, Param.tokens_tree]
    simp only [tree, tokens, MemberTree.tokens, DeclarationTree.tokens, tokens_attributeTrees, Method.tokens,
      DeclarationTree.modifiers, modifierTokens, DeclarationTree.methodTokens, token_printedName, hparams, hbody,
      ValueType.tokens]
    simp

theorem value_tree {a : Member} (h : a.WellNamed) :
    a.tree.value = if a.TargetsInRange then some a.withoutId else none := by
  cases a with
  | field f =>
    rw [if_pos (show (Member.field f).TargetsInRange from trivial)]
    simp only [tree, MemberTree.value, DeclarationTree.value, value_attributeTrees, ValueType.ofName_text h.2.1]
    rfl
  | property p =>
    rw [if_pos (show (Member.property p).TargetsInRange from trivial)]
    simp only [tree, MemberTree.value, DeclarationTree.value, value_attributeTrees, ValueType.ofName_text h.2.1]
    rfl
  | method m =>
    have hbody : DeclarationTree.bodyValue (m.body.map (·.tree)) = if m.TargetsInRange then some m.body else none := by
      cases hb : m.body with
      | none => simp [DeclarationTree.bodyValue, Method.TargetsInRange, hb]
      | some body =>
        have hvalue := Body.value_tree (h.2.2.2.2 body hb)
        simp only [Option.map_some, DeclarationTree.bodyValue, hvalue, Method.TargetsInRange, hb]
        by_cases hrange : body.TargetsInRange <;> simp [hrange]
    have hparams : (m.params.map (·.tree)).map (·.value) = m.params := by
      rw [List.map_map]
      exact (List.map_congr_left fun p hp => Param.value_tree (h.2.1 p hp)).trans (List.map_id m.params)
    simp only [tree, MemberTree.value, DeclarationTree.value, value_attributeTrees, value_printedName, hparams,
      ValueType.ofName_text h.2.2.1, hbody]
    by_cases hrange : m.TargetsInRange
    · rw [if_pos hrange, if_pos (show (Member.method m).TargetsInRange from hrange)]
      rfl
    · rw [if_neg hrange, if_neg (show ¬ (Member.method m).TargetsInRange from hrange)]
      rfl

end Rule.Member

/-! ### Types and modules -/

/-- The type before its module is numbered. -/
def TypeDecl.withoutId (t : TypeDecl) : TypeDecl :=
  { t with id := ⟨0⟩, methods := t.methods.map (·.withoutId) }

/-- The members of a type in the order in which they are written. -/
def TypeDecl.members (t : TypeDecl) : List Rule.Member :=
  t.fields.map .field ++ t.properties.map .property ++ t.methods.map .method

private theorem typeOf_members (t : TypeDecl) :
    Rule.typeOf t.name t.kind t.base t.attributes (t.members.map (·.withoutId)) = t.withoutId := by
  have hnone {α β : Type} (xs : List α) : xs.filterMap (fun _ => (none : Option β)) = [] := by
    induction xs <;> simp_all
  simp [Rule.typeOf, TypeDecl.members, TypeDecl.withoutId, Rule.Member.withoutId, List.filterMap_append,
    List.filterMap_map, Function.comp_def, hnone]

def TypeDecl.tree (t : TypeDecl) : TypeTree :=
  ⟨t.attributes.map (·.tree), t.kind, t.name, t.base, t.members.map (·.tree)⟩

private theorem TypeDecl.tokens_tree (t : TypeDecl) : t.tree.tokens = t.tokens := by
  have hmembers : TypeTree.membersTokens (t.members.map (·.tree)) =
      t.fields.flatMap (·.tokens) ++ t.properties.flatMap (·.tokens) ++ t.methods.flatMap (·.tokens) ++
        [.mark .closeBrace] := by
    simp [TypeTree.membersTokens, List.flatMap_map, Rule.Member.tokens_tree, members, Rule.Member.tokens]
  simp [tree, TypeTree.tokens, TypeTree.rest, tokens_attributeTrees, hmembers, tokens]

theorem TypeDecl.value_tree {t : TypeDecl} (h : t.WellNamed) :
    t.tree.value = if t.TargetsInRange then some t.withoutId else none := by
  obtain ⟨-, -, -, hfields, hproperties, hmethods⟩ := h
  have hnamed : ∀ a ∈ t.members, a.WellNamed := by
    simp only [members, List.forall_mem_append, List.forall_mem_map]
    exact ⟨⟨hfields, hproperties⟩, hmethods⟩
  have hrange : (∀ a ∈ t.members, a.TargetsInRange) ↔ t.TargetsInRange := by
    simp only [members, List.forall_mem_append, List.forall_mem_map]
    exact ⟨fun h => h.2, fun h => ⟨⟨fun _ _ => trivial, fun _ _ => trivial⟩, h⟩⟩
  have hmembers := mapM_check fun a ha => Rule.Member.value_tree (hnamed a ha)
  simp only [tree, TypeTree.value, List.mapM_map, Function.comp_def, value_attributeTrees, hmembers, hrange,
    apply_ite (Option.map _), Option.map_some, Option.map_none, typeOf_members]

/-! ### Numbering -/

private theorem IdSupply.numberMethods_withoutId (ids : IdSupply) (ms : List Method) :
    ids.numberMethods (ms.map (·.withoutId)) = ids.numberMethods ms := by
  induction ms generalizing ids with
  | nil => rfl
  | cons m ms ih =>
    simp only [List.map_cons, numberMethods, ih]
    rfl

private theorem IdSupply.numberTypes_withoutId (ids : IdSupply) (ts : List TypeDecl) :
    ids.numberTypes (ts.map (·.withoutId)) = ids.numberTypes ts := by
  induction ts generalizing ids with
  | nil => rfl
  | cons t ts ih =>
    have hhead : ids.numberType t.withoutId = ids.numberType t := by
      simp only [numberType, TypeDecl.withoutId, numberMethods_withoutId]
    simp only [List.map_cons, numberTypes, hhead, ih]

theorem ofTypes_withoutId (m : Module) :
    Module.ofTypes m.name (m.types.map (·.withoutId)) = m.assignIds := by
  simp only [Module.ofTypes, Module.assignIds, IdSupply.numberTypes_withoutId]

def Module.tree (m : Module) : ModuleTree :=
  ⟨m.name, m.types.map (·.tree)⟩

theorem Module.tokens_tree (m : Module) : m.tree.tokens = m.tokens := by
  simp only [tree, ModuleTree.tokens, List.flatMap_map, TypeDecl.tokens_tree, tokens]

/-- What is written of a module stands for the module if its branches stay inside their bodies, and for nothing
otherwise. -/
theorem Module.value_tree {m : Module} (h : m.WellNamed) :
    m.tree.value = if m.TargetsInRange then some m.assignIds else none := by
  have htypes := mapM_check fun t ht => TypeDecl.value_tree (h.2 t ht)
  have hrange : (∀ t ∈ m.types, t.TargetsInRange) ↔ m.TargetsInRange := Iff.rfl
  simp only [tree, ModuleTree.value, List.mapM_map, Function.comp_def, htypes, hrange, apply_ite (Option.map _),
    Option.map_some, Option.map_none, ofTypes_withoutId]

end AdviceWeaving
