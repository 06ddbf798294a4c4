import AdviceWeaving.Text.Printer
import AdviceWeaving.Proofs.Naming
import AdviceWeaving.Proofs.Tables

/-!
# The tokens of a printed module

`Module.tokens` lists the tokens that the text of a well-named module is made of, part by part in the order of the
grammar, and `closed_module` says that the text gives them.  No token is lost or joined with its neighbour: names and
numbers are always followed by a mark, a space or the end of a line.
-/

namespace AdviceWeaving

/-! ### Lists -/

/-- The tokens behind an item of a parenthesized list. -/
def furtherTokens (items : List (List Token)) : List Token :=
  items.flatMap (.mark .comma :: ·) ++ [.mark .closeParen]

/-- The tokens of a parenthesized list behind its opening parenthesis. -/
def itemTokens : List (List Token) → List Token
  | [] => [.mark .closeParen]
  | item :: items => item ++ furtherTokens items

/-- The tokens of a parenthesized list. -/
def parenTokens (items : List (List Token)) : List Token :=
  .mark .openParen :: itemTokens items

private theorem closed_openParen : Closed "(" [.mark .openParen] := closed_mark (m := .openParen) (by decide)

private theorem closed_closeParen : Closed ")" [.mark .closeParen] :=
  closed_mark (m := .closeParen) (by decide)

section

variable {α : Type} {f : α → String} {g : α → List Token} {xs : List α}

private theorem closed_comma : Closed ", " [.mark .comma] := by
  simpa [Mark.text] using (closed_mark (m := .comma) (by decide)).append closed_space

private theorem closed_further {x : α} (hx : Lexes (f x) (g x))
    (h : ∀ y ∈ xs, Lexes (f y) (g y)) :
    Closed (commaSeparated ((x :: xs).map f) ++ ")") (g x ++ furtherTokens (xs.map g)) := by
  induction xs generalizing x with
  | nil => exact hx.append_closed closed_closeParen rfl
  | cons y xs ih =>
    have htail := ih (h y (by simp)) fun z hz => h z (by simp [hz])
    have hall := (hx.append_closed closed_comma rfl).append htail
    simpa [commaSeparated, furtherTokens, String.append_assoc] using hall

/-- The items of a list, up to the closing parenthesis. -/
private theorem closed_items (h : ∀ x ∈ xs, Lexes (f x) (g x)) :
    Closed (commaSeparated (xs.map f) ++ ")") (itemTokens (xs.map g)) := by
  cases xs with
  | nil => exact closed_closeParen
  | cons x xs => exact closed_further (h x (by simp)) fun y hy => h y (by simp [hy])

end

/-! ### Lines -/

/-- The lines give the tokens, each line ended by a line feed. -/
def LexesLines (lines : List String) (ts : List Token) : Prop :=
  Closed (joinLines lines) ts

section

variable {as bs : List String} {ts us : List Token}

private theorem lexesLines_nil : LexesLines [] [] := closed_empty

private theorem LexesLines.append (ha : LexesLines as ts) (hb : LexesLines bs us) :
    LexesLines (as ++ bs) (ts ++ us) := by
  rw [LexesLines, joinLines, List.map_append, String.join_append]
  exact Closed.append ha hb

private theorem Lexes.line {a : String} (h : Lexes a ts) : LexesLines [a] ts := by
  have hline := h.append_closed closed_newline rfl
  simpa [LexesLines, joinLines] using hline

private theorem lexesLines_flatMap {α : Type} {f : α → List String} {g : α → List Token}
    {xs : List α} (h : ∀ x ∈ xs, LexesLines (f x) (g x)) :
    LexesLines (xs.flatMap f) (xs.flatMap g) := by
  induction xs with
  | nil => exact lexesLines_nil
  | cons x xs ih => exact (h x (by simp)).append (ih fun y hy => h y (by simp [hy]))

private theorem lexesLines_map {α : Type} {f : α → String} {g : α → List Token} {xs : List α}
    (h : ∀ x ∈ xs, Lexes (f x) (g x)) : LexesLines (xs.map f) (xs.flatMap g) := by
  rw [List.map_eq_flatMap]
  exact lexesLines_flatMap fun x hx => (h x hx).line

end

/-! ### References -/

/-- The token of the name of a method or of a referenced member. -/
def memberToken (name : String) : Token :=
  if name = Method.constructorName then .ctor .ctor
  else if name = Method.typeInitializerName then .ctor .cctor
  else .path name

/-- The token of a type. -/
def ValueType.tokens (t : ValueType) : List Token :=
  [.path t.text]

def FieldSig.tokens (f : FieldSig) : List Token :=
  .path f.declaring :: .mark .doubleColon :: memberToken f.name :: .mark .colon :: f.type.tokens

def MethodSig.tokens (m : MethodSig) : List Token :=
  (if m.onInstance then [Token.keyword .onInstance] else []) ++
    Token.path m.declaring :: Token.mark .doubleColon :: memberToken m.name ::
      parenTokens (m.params.map (·.tokens)) ++ Token.mark .arrow :: m.ret.tokens

/-- A keyword and a space. -/
private theorem closed_keyword_space (word : Keyword) : Closed (word.text ++ " ") [.keyword word] :=
  (lexes_keyword word).append_closed closed_space rfl

private theorem lexes_memberName {name : String} (h : isMemberName name) : Lexes name [memberToken name] := by
  by_cases hctor : name = Method.constructorName
  · rw [hctor]
    exact (closed_ctorName .ctor).lexes
  by_cases hcctor : name = Method.typeInitializerName
  · rw [hcctor]
    exact (closed_ctorName .cctor).lexes
  have hname : isName name := by simpa [isMemberName, hctor, hcctor] using h
  simpa [memberToken, hctor, hcctor] using lexes_name hname

private theorem ValueType.lexes {t : ValueType} (h : t.WellNamed) : Lexes t.text t.tokens :=
  lexes_name (isName_text h)

private theorem closed_doubleColon : Closed "::" [.mark .doubleColon] :=
  closed_mark (m := .doubleColon) (by decide)

private theorem FieldSig.lexes {f : FieldSig} (h : f.WellNamed) : Lexes f.text f.tokens :=
  ((((lexes_name h.1).append_closed closed_doubleColon rfl).append_lexes
    (lexes_memberName h.2.1)).append_closed closed_colon rfl).append_lexes (ValueType.lexes h.2.2)

/-- An arrow between a closing parenthesis and a type. -/
private theorem lexes_arrow {a b : String} {ts : List Token} (ha : Closed (a ++ (b ++ ")")) ts)
    {t : ValueType} (ht : t.WellNamed) :
    Lexes (a ++ b ++ ") -> " ++ t.text) (ts ++ .mark .arrow :: t.tokens) := by
  have harrow : Closed " -> " [.mark .arrow] := by
    simpa [Mark.text] using
      (closed_space.append (closed_mark (m := .arrow) (by decide))).append closed_space
  have hall := (ha.append harrow).append_lexes (ValueType.lexes ht)
  simpa [String.append_assoc] using hall

private theorem MethodSig.lexes {m : MethodSig} (h : m.WellNamed) : Lexes m.text m.tokens := by
  obtain ⟨hdeclaring, hname, hparams, hret⟩ := h
  have hreceiver : Closed (if m.onInstance then "instance " else "")
      (if m.onInstance then [.keyword .onInstance] else []) := by
    split
    · simpa [Keyword.text] using closed_keyword_space .onInstance
    · exact closed_empty
  have hmember := ((lexes_name hdeclaring).append_closed closed_doubleColon rfl).append_lexes
    (lexes_memberName hname)
  have hparams := closed_items fun p hp => ValueType.lexes (hparams p hp)
  have hcall := (hmember.append_closed closed_openParen rfl).append hparams
  have hall := hreceiver.append_lexes (lexes_arrow hcall hret)
  simpa [MethodSig.text, MethodSig.tokens, parenTokens, toString, String.append_assoc] using hall

/-! ### Instructions -/

def Instruction.operandTokens : Instruction → List Token
  | .simple _ => []
  | .ldcI4 value => [.int (Int64.ofInt value.toInt)]
  | .ldcI8 value => [.int value]
  | .ldstr value => [.string value]
  | .slot _ index => [.int (Int64.ofInt index.toNat)]
  | .field _ sig => sig.tokens
  | .call _ sig => sig.tokens
  | .branch _ target => [.path (label target.toNat)]

def Instruction.tokens (i : Instruction) : List Token :=
  .path i.mnemonic :: i.operandTokens

private theorem isName_mnemonic (i : Instruction) : isName i.mnemonic :=
  have hall : ∀ entry ∈ mnemonics, isName entry.1 := by decide
  hall (i.mnemonic, i.kind) (mem_mnemonics i.operandKind?_mnemonic)

private theorem Instruction.lexes {i : Instruction} (h : i.WellNamed) : Lexes i.text i.tokens := by
  have hname := lexes_name (isName_mnemonic i)
  have hspaced {a : String} {ts : List Token} (ha : Lexes a ts) :
      Lexes (i.mnemonic ++ (" " ++ a)) (.path i.mnemonic :: ts) :=
    hname.append (closed_space.append_lexes ha) (separates_append rfl)
  cases i with
  | simple op => simpa [Instruction.text, Instruction.operandText, Instruction.tokens,
    Instruction.operandTokens] using hname
  | ldcI4 value =>
    have hvalue : (Int64.ofInt value.toInt).toInt = value.toInt :=
      Int64.toInt_ofInt_of_le (by have := value.le_toInt; omega) (by have := value.toInt_lt; omega)
    exact hspaced (hvalue ▸ lexes_int (Int64.ofInt value.toInt))
  | ldcI8 value => exact hspaced (lexes_int value)
  | ldstr value => exact hspaced (closed_escapeLiteral value).lexes
  | slot op index =>
    have := index.toNat_lt
    exact hspaced (lexes_digits (Int64.toInt_ofInt_of_le (by omega) (by omega)))
  | field op sig => exact hspaced (FieldSig.lexes h)
  | call op sig => exact hspaced (MethodSig.lexes h)
  | branch op target => exact hspaced (lexes_name (isName_label target.toNat))

/-! ### Attributes -/

def Argument.token : Argument → Token
  | .int value => .int value
  | .string value => .string value
  | .member path => .path path

def Attribute.tokens (a : Attribute) : List Token :=
  .mark .openBracket :: .path a.name ::
    (if a.args.isEmpty then [] else parenTokens (a.args.map ([·.token]))) ++ [.mark .closeBracket]

private theorem Argument.lexes {x : Argument} (h : x.WellNamed) : Lexes x.text [x.token] := by
  cases x with
  | int value => exact lexes_int value
  | string value => exact (closed_escapeLiteral value).lexes
  | member path => exact lexes_name h

private theorem Attribute.closed {a : Attribute} (h : a.WellNamed) : Closed a.text a.tokens := by
  have hopen : Closed "[" [.mark .openBracket] := closed_mark (m := .openBracket) (by decide)
  have hclose : Closed "]" [.mark .closeBracket] := closed_mark (m := .closeBracket) (by decide)
  have hname := hopen.append_lexes (lexes_name h.1)
  rw [Attribute.text, Attribute.tokens]
  split
  case isTrue => exact hname.append_closed hclose rfl
  case isFalse =>
    have hargs := closed_items (g := ([·.token])) fun x hx => Argument.lexes (h.2 x hx)
    have hall := ((hname.append_closed closed_openParen rfl).append hargs).append hclose
    simpa [parenTokens, toString, String.append_assoc] using hall

/-- A line for each attribute. -/
private theorem lexesLines_attributes {indent : String} (hindent : Closed indent []) {as : List Attribute}
    (h : ∀ a ∈ as, a.WellNamed) :
    LexesLines (as.map (indent ++ ·.text)) (as.flatMap (·.tokens)) :=
  lexesLines_map fun a ha => (hindent.append (Attribute.closed (h a ha))).lexes

/-! ### Bodies -/

/-- The tokens of the line of an instruction at an index. -/
def lineTokens : Instruction × Nat → List Token
  | (i, index) => .path (label index) :: .mark .colon :: i.tokens

/-- The tokens of a body behind its opening brace. -/
def Body.tokens (body : Body) : List Token :=
  (if body.locals.isEmpty then []
    else .directive .locals :: parenTokens (body.locals.toList.map (·.tokens))) ++
  (if body.initLocals then [.directive .initLocals] else []) ++
  body.code.zipIdx.flatMap lineTokens ++ [.mark .closeBrace]

private theorem closed_indent : Closed indent [] := by
  simpa [indent] using ((closed_space.append closed_space).append closed_space).append closed_space

private theorem Body.lexesLines {body : Body} {indent : String} (hindent : Closed indent [])
    (h : body.WellNamed) :
    LexesLines (body.lines indent)
      ((if body.locals.isEmpty then []
        else .directive .locals :: parenTokens (body.locals.toList.map (·.tokens))) ++
      (if body.initLocals then [.directive .initLocals] else []) ++
      body.code.zipIdx.flatMap lineTokens) := by
  have hlocals : LexesLines
      (if body.locals.isEmpty then []
        else [s!"{indent}.locals ({commaSeparated (body.locals.toList.map (·.text))})"])
      (if body.locals.isEmpty then []
        else .directive .locals :: parenTokens (body.locals.toList.map (·.tokens))) := by
    split
    · exact lexesLines_nil
    · have hopen : Closed ".locals (" [.directive .locals, .mark .openParen] := by
        simpa [Directive.text] using
          ((closed_directive .locals).append closed_space).append closed_openParen
      have hall := (hindent.append hopen).append
        (closed_items fun t ht => ValueType.lexes (h.1 t ht))
      refine Lexes.line (Closed.lexes ?_)
      simpa [parenTokens, toString, String.append_assoc] using hall
  have hinit : LexesLines (if body.initLocals then [indent ++ ".initlocals"] else [])
      (if body.initLocals then [.directive .initLocals] else []) := by
    split
    · exact (hindent.append (closed_directive .initLocals)).lexes.line
    · exact lexesLines_nil
  have hcode : LexesLines (body.code.zipIdx.map fun (i, index) => s!"{indent}{label index}: {i.text}")
      (body.code.zipIdx.flatMap lineTokens) := by
    refine lexesLines_map fun (i, index) hi => ?_
    have hi := Instruction.lexes (h.2 i (List.fst_mem_of_mem_zipIdx hi))
    exact ((hindent.append_lexes (lexes_name (isName_label index))).append_closed closed_colon
      rfl).append_lexes hi
  exact (hlocals.append hinit).append hcode

/-! ### Members -/

/-- A space and an opening brace. -/
private theorem closed_openBrace : Closed " \x7b" [.mark .openBrace] := by
  simpa [Mark.text] using closed_space.append (closed_mark (m := .openBrace) (by decide))

/-- The tokens of a name and a type with a colon between them. -/
def typedTokens (name : String) (type : ValueType) : List Token :=
  .path name :: .mark .colon :: type.tokens

def Access.keyword : Access → Keyword
  | .pub => .pub
  | .priv => .priv

/-- The tokens of the modifiers in front of a field or a method. -/
def modifierTokens (access : Access) (isStatic : Bool) : List Token :=
  .keyword access.keyword :: if isStatic then [.keyword .static] else []

def Field.tokens (f : Field) : List Token :=
  f.attributes.flatMap (·.tokens) ++ modifierTokens f.access f.isStatic ++
    .keyword .field :: typedTokens f.name f.type

def Property.tokens (p : Property) : List Token :=
  p.attributes.flatMap (·.tokens) ++ .keyword .property :: typedTokens p.name p.type

def Param.tokens (p : Param) : List Token :=
  p.attributes.flatMap (·.tokens) ++ typedTokens p.name p.type

def Method.tokens (m : Method) : List Token :=
  m.attributes.flatMap (·.tokens) ++ modifierTokens m.access m.isStatic ++
    .keyword .method :: memberToken m.name :: parenTokens (m.params.map (·.tokens)) ++
    .mark .arrow :: m.ret.tokens ++
    m.body.elim [.mark .semicolon] (.mark .openBrace :: ·.tokens)

private theorem lexes_typed {name : String} {type : ValueType} (hname : isName name) (h : type.WellNamed) :
    Lexes (name ++ ": " ++ type.text) (typedTokens name type) :=
  ((lexes_name hname).append_closed closed_colon rfl).append_lexes (ValueType.lexes h)

private theorem closed_modifiers (access : Access) (isStatic : Bool) :
    Closed (modifiers access isStatic) (modifierTokens access isStatic) := by
  have haccess : Closed (access.text ++ " ") [.keyword access.keyword] := by
    cases access
    · exact closed_keyword_space .pub
    · exact closed_keyword_space .priv
  cases isStatic
  · exact haccess.append closed_empty
  · simpa [modifiers, modifierTokens, Keyword.text] using
      haccess.append (closed_keyword_space .static)

/-- A keyword, a space and what follows it. -/
private theorem lexes_keyword_space (word : Keyword) {a : String} {ts : List Token} (h : Lexes a ts) :
    Lexes (word.text ++ " " ++ a) (.keyword word :: ts) :=
  (closed_keyword_space word).append_lexes h

private theorem Field.lexesLines {f : Field} (h : f.WellNamed) : LexesLines f.lines f.tokens := by
  have hfield := (closed_indent.append (closed_modifiers f.access f.isStatic)).append_lexes
    (lexes_keyword_space .field (lexes_typed h.1 h.2.1))
  have hword : "field " = Keyword.field.text ++ " " := by simp [Keyword.text]
  have hall := (lexesLines_attributes closed_indent h.2.2).append hfield.line
  simpa [Field.lines, Field.tokens, attributeLines, toString, hword, String.append_assoc] using hall

private theorem Property.lexesLines {p : Property} (h : p.WellNamed) : LexesLines p.lines p.tokens := by
  have hproperty := closed_indent.append_lexes
    (lexes_keyword_space .property (lexes_typed h.1 h.2.1))
  have hword : "property " = Keyword.property.text ++ " " := by simp [Keyword.text]
  have hall := (lexesLines_attributes closed_indent h.2.2).append hproperty.line
  simpa [Property.lines, Property.tokens, attributeLines, toString, hword, String.append_assoc]
    using hall

/-- A space behind each attribute. -/
private theorem closed_attributes {as : List Attribute} (h : ∀ a ∈ as, a.WellNamed) :
    Closed (String.join (as.map (·.text ++ " "))) (as.flatMap (·.tokens)) := by
  induction as with
  | nil => exact closed_empty
  | cons a as ih =>
    have ha := (Attribute.closed (h a (by simp))).append closed_space
    simpa [String.join_cons] using ha.append (ih fun b hb => h b (by simp [hb]))

private theorem Param.lexes {p : Param} (h : p.WellNamed) : Lexes p.text p.tokens :=
  (closed_attributes h.2.2).append_lexes (lexes_typed h.1 h.2.1)

/-- A method up to its body. -/
private theorem Method.lexes_heading {m : Method} (h : m.WellNamed) :
    Lexes m.heading (modifierTokens m.access m.isStatic ++ .keyword .method :: memberToken m.name ::
      parenTokens (m.params.map (·.tokens)) ++ .mark .arrow :: m.ret.tokens) := by
  have hparams := closed_items fun p hp => Param.lexes (h.2.1 p hp)
  have hname := (closed_indent.append (closed_modifiers m.access m.isStatic)).append_lexes
    (lexes_keyword_space .method (lexes_memberName h.1))
  have hcall := (hname.append_closed closed_openParen rfl).append hparams
  have hword : "method " = Keyword.method.text ++ " " := by simp [Keyword.text]
  simpa [Method.heading, parenTokens, toString, hword, String.append_assoc] using
    lexes_arrow hcall h.2.2.1

private theorem Method.lexesLines {m : Method} (h : m.WellNamed) : LexesLines m.lines m.tokens := by
  have hattributes := lexesLines_attributes closed_indent h.2.2.2.1
  rw [Method.lines, Method.tokens]
  cases hbody : m.body with
  | none =>
    have hsemicolon : Closed ";" [.mark .semicolon] := closed_mark (m := .semicolon) (by decide)
    have hend := (Method.lexes_heading h).append_closed hsemicolon rfl
    simpa [attributeLines] using hattributes.append hend.lexes.line
  | some body =>
    have hopen := (Method.lexes_heading h).append_closed closed_openBrace rfl
    have hlines := Body.lexesLines (closed_indent.append closed_indent) (h.2.2.2.2 body hbody)
    have hclose : Closed (indent ++ "\x7d") [.mark .closeBrace] :=
      closed_indent.append (closed_mark (m := .closeBrace) (by decide))
    have hall := hattributes.append ((hopen.lexes.line.append hlines).append hclose.lexes.line)
    simpa [attributeLines, Body.tokens] using hall

/-! ### Types and modules -/

def TypeKind.keyword : TypeKind → Keyword
  | .classType => .classType
  | .interfaceType => .interfaceType

def TypeDecl.tokens (t : TypeDecl) : List Token :=
  t.attributes.flatMap (·.tokens) ++ .keyword t.kind.keyword :: .path t.name ::
    t.base.elim [] ([.keyword .inherits, .path ·]) ++ .mark .openBrace ::
    t.fields.flatMap (·.tokens) ++ t.properties.flatMap (·.tokens) ++ t.methods.flatMap (·.tokens) ++
    [.mark .closeBrace]

def Module.tokens (m : Module) : List Token :=
  .keyword .module :: .path m.name :: m.types.flatMap (·.tokens)

private theorem TypeDecl.lexes_heading {t : TypeDecl} (h : t.WellNamed) :
    Closed t.heading (.keyword t.kind.keyword :: .path t.name ::
      t.base.elim [] ([.keyword .inherits, .path ·]) ++ [.mark .openBrace]) := by
  have hkind : t.kind.text = t.kind.keyword.text := by cases t.kind <;> rfl
  have hname := lexes_keyword_space t.kind.keyword (lexes_name h.1)
  rw [TypeDecl.heading, hkind]
  cases hbase : t.base with
  | none => simpa [toString, String.append_assoc] using hname.append_closed closed_openBrace rfl
  | some base =>
    have hinherits := closed_space.append_lexes
      (lexes_keyword_space .inherits (lexes_name (h.2.1 base hbase)))
    have hall := (hname.append hinherits (separates_append rfl)).append_closed closed_openBrace rfl
    have hword : " extends " = " " ++ (Keyword.inherits.text ++ " ") := by simp [Keyword.text]
    simpa [toString, hword, String.append_assoc] using hall

private theorem TypeDecl.lexesLines {t : TypeDecl} (h : t.WellNamed) : LexesLines t.lines t.tokens := by
  have hheading := (TypeDecl.lexes_heading h).lexes.line
  obtain ⟨-, -, hattributes, hfields, hproperties, hmethods⟩ := h
  have hattributes := lexesLines_attributes closed_empty hattributes
  have hfields := lexesLines_flatMap fun f hf => Field.lexesLines (hfields f hf)
  have hproperties := lexesLines_flatMap fun p hp => Property.lexesLines (hproperties p hp)
  have hmethods := lexesLines_flatMap fun m hm => Method.lexesLines (hmethods m hm)
  have hclose : Closed "\x7d" [.mark .closeBrace] := closed_mark (m := .closeBrace) (by decide)
  have hall := ((((hattributes.append hheading).append hfields).append hproperties).append
    hmethods).append hclose.lexes.line
  simpa [TypeDecl.lines, TypeDecl.tokens] using hall

/-- The text of a well-named module gives its tokens. -/
theorem closed_module {m : Module} (h : m.WellNamed) : Closed m.text m.tokens := by
  have hword : "module " = Keyword.module.text ++ " " := by simp [Keyword.text]
  have hname := (lexes_keyword_space .module (lexes_name h.1)).line
  rw [← hword] at hname
  have htypes := lexesLines_flatMap (f := fun t : TypeDecl => "" :: t.lines) fun t ht =>
    (closed_empty.lexes.line).append (TypeDecl.lexesLines (h.2 t ht))
  exact hname.append htypes

end AdviceWeaving
