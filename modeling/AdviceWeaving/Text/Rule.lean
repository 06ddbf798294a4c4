import AdviceWeaving.Text.Token
import AdviceWeaving.Text.Labels

/-!
# Rules that read tokens

A `Rule` reads a value from the front of a list of tokens and hands on the rest, which is never longer than what it
was given; a loop that reads a token of its own in each round therefore ends. A rule fails at the first token that
cannot continue the text, and never takes back what it has read.
-/

namespace AdviceWeaving

/-- Why a list of tokens is not a module. -/
inductive ParseFault
  /-- The token cannot stand here; none: the text ends too early. -/
  | unexpected (found : Option Lexeme)
  /-- The word behind a label starts no instruction, together with the token that follows it. The token is told only
  where a method was expected. -/
  | dangling (word : Span) (found : Option Token)
  /-- The body that opens at the brace is complete, but its lines do not resolve. -/
  | unresolved (brace : Span) (fault : LabelFault)
  deriving DecidableEq, Inhabited

/-- What a rule leaves of the tokens that it was given. -/
abbrev Remainder (ts : List Lexeme) : Type :=
  { rest : List Lexeme // rest.length ≤ ts.length }

/-- The outcome of reading from the front of `ts`. -/
abbrev Outcome (α : Type) (ts : List Lexeme) : Type :=
  Except ParseFault (α × Remainder ts)

/-- Go on reading where an outcome stopped. -/
def Outcome.andThen {α β : Type} {ts : List Lexeme} (o : Outcome α ts)
    (next : α → (rest : Remainder ts) → Outcome β rest) : Outcome β ts :=
  match o with
  | .error fault => .error fault
  | .ok (a, rest) =>
    match next a rest with
    | .error fault => .error fault
    | .ok (b, rest') => .ok (b, ⟨rest', Nat.le_trans rest'.property rest.property⟩)

/-- The outcome of reading behind one more token. -/
def Outcome.behind {α : Type} {ts : List Lexeme} (t : Lexeme) (o : Outcome α ts) : Outcome α (t :: ts) :=
  o.map fun (a, rest) => (a, ⟨rest, Nat.le_succ_of_le rest.property⟩)

/-- The same outcome with another value. -/
def Outcome.withValue {α β : Type} {ts : List Lexeme} (o : Outcome α ts) (f : α → β) : Outcome β ts :=
  o.map fun (a, rest) => (f a, rest)

/-- A way to read a value from the front of a list of tokens. -/
def Rule (α : Type) : Type :=
  (ts : List Lexeme) → Outcome α ts

namespace Rule

instance : Monad Rule where
  pure a := fun ts => .ok (a, ⟨ts, Nat.le_refl _⟩)
  bind p f := fun ts => (p ts).andThen fun a rest => f a rest

/-- Read one token of the class that `f` accepts. -/
def token {α : Type} (f : Token → Option α) : Rule α
  | [] => .error (.unexpected none)
  | t :: rest =>
    match f t.token with
    | some a => .ok (a, ⟨rest, Nat.le_succ _⟩)
    | none => .error (.unexpected (some t))

/-- Look at the next token without reading it. -/
def peek : Rule (Option Lexeme) :=
  fun ts => .ok (ts.head?, ⟨ts, Nat.le_refl _⟩)

/-- Give up at the next token. -/
def unexpected {α : Type} : Rule α :=
  fun ts => .error (.unexpected ts.head?)

/-- Give up for the given reason. -/
def fail {α : Type} (fault : ParseFault) : Rule α :=
  fun _ => .error fault

/-- Read the given token. -/
def exactly (t : Token) : Rule Unit :=
  token fun u => if u = t then some () else none

/-- Read the given token if it comes next, and tell whether it did. -/
def optional (t : Token) : Rule Bool
  | [] => .ok (false, ⟨[], Nat.le_refl _⟩)
  | u :: rest => if u.token = t then .ok (true, ⟨rest, Nat.le_succ _⟩) else .ok (false, ⟨u :: rest, Nat.le_refl _⟩)

/-- Read the given punctuation mark. -/
def mark (m : Mark) : Rule Unit :=
  exactly (.mark m)

/-- Read a dotted name. -/
def path : Rule String :=
  token fun
    | .path name => some name
    | _ => none

/-- Read the name of a method or a field: a dotted name, or the name of a constructor. -/
def memberName : Rule String :=
  token fun
    | .path name => some name
    | .ctor name => some name.text
    | _ => none

/-- Read a type. -/
def valueType : Rule ValueType := do
  return .ofName (← path)

/-- Read what follows an item of a parenthesized list: further items with a comma before each, and the closing
parenthesis. -/
def furtherItems {α : Type} (item : Rule α) : Rule (List α)
  | [] => .error (.unexpected none)
  | t :: ts =>
    if t.token = .mark .closeParen then
      .ok ([], ⟨ts, Nat.le_succ _⟩)
    else if t.token = .mark .comma then
      ((item ts).andThen fun a rest => (furtherItems item rest).withValue (a :: ·)).behind t
    else
      .error (.unexpected (some t))
termination_by ts => ts.length
decreasing_by
  have := rest.property
  simp only [List.length_cons]
  omega

/-- Read a list in parentheses, with commas between the items. -/
def parenthesized {α : Type} (item : Rule α) : Rule (List α) := do
  mark .openParen
  if (← optional (.mark .closeParen)) then
    return []
  else
    return (← item) :: (← furtherItems item)

end Rule

end AdviceWeaving
