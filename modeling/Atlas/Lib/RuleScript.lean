import Atlas.Lib.JsonRoundTrip

/-! Rules that answer requests, written as scripts: the tokens of a text, the part of the
language that such rules use, and what a rule answers to a request. -/
namespace RuleScript

/-! Tokens. -/

inductive Token where
  | word (x : String)
  | text (s : String)
  | number (n : ℕ)
  | mark (m : String)
  deriving Repr, DecidableEq

/-- Blanks and comments to the end of their line are skipped; the flag is set in a comment. -/
def skipBlank : Bool → List Char → List Char
  | _,[] => []
  | true,c :: cs => skipBlank (c != '\n') cs
  | false,'/' :: '/' :: cs => skipBlank true cs
  | false,c :: cs => if JsonText.isBlank c then skipBlank false cs else c :: cs

def isNameStart (c : Char) : Bool := c.isAlpha || c == '_' || c == '$'

def isNameChar (c : Char) : Bool := isNameStart c || c.isDigit

/-- The marks of one character. -/
def marks : List Char := ['(',')','\x7b','\x7d','[',']','.',',',';',':','=','<']

/-- The first token of a text, and what follows it. -/
def lexToken : List Char → Option (Token × List Char)
  | [] => none
  | '"' :: cs => (JsonText.parseString cs).map fun (s,rest) => (.text s,rest)
  | '=' :: '=' :: cs => some (.mark "==",cs)
  | '>' :: '=' :: cs => some (.mark ">=",cs)
  | '&' :: '&' :: cs => some (.mark "&&",cs)
  | c :: cs =>
      if isNameStart c then
        some (.word (String.ofList (c :: cs.takeWhile isNameChar)),cs.dropWhile isNameChar)
      else if c.isDigit then
        some (.number (Nat.ofDigitChars 10 (c :: cs.takeWhile Char.isDigit) 0),
          cs.dropWhile Char.isDigit)
      else if c ∈ marks then some (.mark (String.singleton c),cs)
      else none

/-- The tokens of a text. -/
def lex : ℕ → List Char → Option (List Token)
  | 0,_ => none
  | fuel + 1,cs =>
      match skipBlank false cs with
      | [] => some []
      | c :: cs => do
          let (t,rest) ← lexToken (c :: cs)
          let ts ← lex fuel rest
          some (t :: ts)

/-! The language. -/

inductive Term where
  | name (x : String)
  | text (s : String)
  | number (n : ℕ)
  | strings (items : List String)
  | table (fields : List (String × List String))
  | member (t : Term) (x : String)
  | call (t : Term) (x : String) (argument : Term)
  | index (t i : Term)
  deriving Repr

inductive Comparison where
  | value (t : Term)
  | less (a b : Term)
  | atLeast (a b : Term)
  | equal (a b : Term)
  deriving Repr

inductive Expr where
  | one (c : Comparison)
  | both (c : Comparison) (e : Expr)
  deriving Repr

inductive Stmt where
  | declare (x : String) (e : Expr)
  | when (e : Expr) (body : List Stmt)
  | give (e : Expr)

/-- A function of an action and a subject, registered as a rule. -/
structure Rule where
  action : String
  subject : String
  body : List Stmt

def reserved : List String := ["var","if","return","function"]

/-- The items of an array after the first, up to the bracket that closes it. -/
def parseMore : List Token → Option (List String × List Token)
  | .mark "]" :: ts => some ([],ts)
  | .mark "," :: .text s :: ts => (parseMore ts).map fun (items,rest) => (s :: items,rest)
  | _ => none

/-- An array of texts after its opening bracket. -/
def parseStrings : List Token → Option (List String × List Token)
  | .mark "]" :: ts => some ([],ts)
  | .text s :: ts => (parseMore ts).map fun (items,rest) => (s :: items,rest)
  | _ => none

/-- A field of a table; the key that sets the prototype of a table is not read. -/
def parseField : List Token → Option ((String × List String) × List Token)
  | .text key :: .mark ":" :: .mark "[" :: ts =>
      if key = "__proto__" then none
      else (parseStrings ts).map fun (items,rest) => ((key,items),rest)
  | _ => none

/-- The fields of a table after the first. -/
def parseFields : ℕ → List Token → Option (List (String × List String) × List Token)
  | 0,_ => none
  | fuel + 1,ts =>
      match ts with
      | .mark "\x7d" :: ts => some ([],ts)
      | .mark "," :: ts => do
          let (field,ts) ← parseField ts
          let (fields,ts) ← parseFields fuel ts
          some (field :: fields,ts)
      | _ => none

def parseTable (ts : List Token) : Option (List (String × List String) × List Token) :=
  match ts with
  | .mark "\x7d" :: ts => some ([],ts)
  | ts => do
      let (field,ts) ← parseField ts
      let (fields,ts) ← parseFields (ts.length + 1) ts
      some (field :: fields,ts)

def parseAtom : List Token → Option (Term × List Token)
  | .word x :: ts => if x ∈ reserved then none else some (.name x,ts)
  | .text s :: ts => some (.text s,ts)
  | .number n :: ts => some (.number n,ts)
  | .mark "[" :: ts => (parseStrings ts).map fun (items,rest) => (.strings items,rest)
  | .mark "\x7b" :: ts => (parseTable ts).map fun (fields,rest) => (.table fields,rest)
  | _ => none

mutual

def parseTerm : ℕ → List Token → Option (Term × List Token)
  | 0,_ => none
  | fuel + 1,ts => do
      let (t,ts) ← parseAtom ts
      parseTail fuel t ts

/-- What is taken of a term: its members, calls and indices. -/
def parseTail : ℕ → Term → List Token → Option (Term × List Token)
  | 0,_,_ => none
  | fuel + 1,t,ts =>
      match ts with
      | .mark "." :: .word x :: .mark "(" :: ts => do
          let (argument,ts) ← parseTerm fuel ts
          match ts with
          | .mark ")" :: ts => parseTail fuel (.call t x argument) ts
          | _ => none
      | .mark "." :: .word x :: ts => parseTail fuel (.member t x) ts
      | .mark "[" :: ts => do
          let (i,ts) ← parseTerm fuel ts
          match ts with
          | .mark "]" :: ts => parseTail fuel (.index t i) ts
          | _ => none
      | ts => some (t,ts)

end

def parseComparison (fuel : ℕ) (ts : List Token) : Option (Comparison × List Token) := do
  let (a,ts) ← parseTerm fuel ts
  match ts with
  | .mark "<" :: ts => (parseTerm fuel ts).map fun (b,ts) => (.less a b,ts)
  | .mark ">=" :: ts => (parseTerm fuel ts).map fun (b,ts) => (.atLeast a b,ts)
  | .mark "==" :: ts => (parseTerm fuel ts).map fun (b,ts) => (.equal a b,ts)
  | ts => some (.value a,ts)

def parseExpr : ℕ → List Token → Option (Expr × List Token)
  | 0,_ => none
  | fuel + 1,ts => do
      let (c,ts) ← parseComparison fuel ts
      match ts with
      | .mark "&&" :: ts => (parseExpr fuel ts).map fun (e,ts) => (.both c e,ts)
      | ts => some (.one c,ts)

/-- An expression and the mark that follows it. -/
def parseUntil (m : String) (fuel : ℕ) (ts : List Token) : Option (Expr × List Token) := do
  let (e,ts) ← parseExpr fuel ts
  match ts with
  | .mark m' :: ts => if m' = m then some (e,ts) else none
  | _ => none

/-- The statements up to the brace that closes their block. -/
def parseBlock : ℕ → List Token → Option (List Stmt × List Token)
  | 0,_ => none
  | fuel + 1,ts =>
      match ts with
      | .mark "\x7d" :: ts => some ([],ts)
      | .word "var" :: .word x :: .mark "=" :: ts => do
          let (e,ts) ← parseUntil ";" fuel ts
          let (stmts,ts) ← parseBlock fuel ts
          some (.declare x e :: stmts,ts)
      | .word "return" :: ts => do
          let (e,ts) ← parseUntil ";" fuel ts
          let (stmts,ts) ← parseBlock fuel ts
          some (.give e :: stmts,ts)
      | .word "if" :: .mark "(" :: ts => do
          let (e,ts) ← parseUntil ")" fuel ts
          match ts with
          | .mark "\x7b" :: ts => do
              let (body,ts) ← parseBlock fuel ts
              let (stmts,ts) ← parseBlock fuel ts
              some (.when e body :: stmts,ts)
          | _ => none
      | _ => none

def parseRule (ts : List Token) : Option Rule :=
  match ts with
  | .word "polkit" :: .mark "." :: .word "addRule" :: .mark "(" :: .word "function" ::
      .mark "(" :: .word action :: .mark "," :: .word subject :: .mark ")" :: .mark "\x7b" :: ts =>
      match parseBlock ts.length ts with
      | some (body,[.mark ")",.mark ";"]) => some ⟨action,subject,body⟩
      | _ => none
  | _ => none

/-- The rule that a text holds. -/
def readRule (text : List Char) : Option Rule := (lex (text.length + 1) text).bind parseRule

/-! What a rule answers. -/

/-- What the authority is asked: an action with its details, and who asks. -/
structure Request where
  action : String
  details : String → Option String
  user : String

inductive Value where
  | undefined
  | bool (b : Bool)
  | number (z : ℤ)
  | text (s : String)
  | strings (items : List String)
  | table (fields : List (String × List String))
  | inherited
  | action
  | subject
  | polkit
  | results
  | result (name : String)
  deriving Repr, DecidableEq

def Value.truthy : Value → Bool
  | .undefined => false
  | .bool b => b
  | .number z => z != 0
  | .text s => s != ""
  | _ => true

/-- What every table has from its prototype. -/
def prototype : List String :=
  ["constructor","hasOwnProperty","isPrototypeOf","propertyIsEnumerable","toLocaleString",
    "toString","valueOf","__defineGetter__","__defineSetter__","__lookupGetter__",
    "__lookupSetter__","__proto__"]

/-- Of two fields of one name the later counts. -/
def field (fields : List (String × List String)) (key : String) : Value :=
  match fields.reverse.lookup key with
  | some items => .strings items
  | none => if key ∈ prototype then .inherited else .undefined

def outcomes : List String :=
  ["NO","YES","AUTH_SELF","AUTH_SELF_KEEP","AUTH_ADMIN","AUTH_ADMIN_KEEP","NOT_HANDLED"]

def Value.member (r : Request) : Value → String → Option Value
  | .action,"id" => some (.text r.action)
  | .subject,"user" => some (.text r.user)
  | .polkit,"Result" => some .results
  | .results,x => if x ∈ outcomes then some (.result x) else none
  | .table fields,x => some (field fields x)
  | _,_ => none

def Value.call (r : Request) : Value → String → Value → Option Value
  | .strings items,"indexOf",.text s =>
      some (.number (if s ∈ items then (items.idxOf s : ℤ) else -1))
  | .strings _,"indexOf",.undefined => some (.number (-1))
  | .action,"lookup",.text key => some (((r.details key).map .text).getD .undefined)
  | _,_,_ => none

def Value.index : Value → Value → Option Value
  | .table fields,.text key => some (field fields key)
  | .table fields,.undefined => some (field fields "undefined")
  | _,_ => none

abbrev Env := List (String × Value)

def Term.eval (r : Request) (env : Env) : Term → Option Value
  | .name x => env.lookup x
  | .text s => some (.text s)
  | .number n => some (.number n)
  | .strings items => some (.strings items)
  | .table fields => some (.table fields)
  | .member t x => (t.eval r env).bind fun v => v.member r x
  | .call t x argument => (t.eval r env).bind fun v =>
      (argument.eval r env).bind fun w => v.call r x w
  | .index t i => (t.eval r env).bind fun v => (i.eval r env).bind fun w => v.index w

def Comparison.eval (r : Request) (env : Env) : Comparison → Option Value
  | .value t => t.eval r env
  | .less a b =>
      match a.eval r env,b.eval r env with
      | some (.number x),some (.number y) => some (.bool (x < y))
      | _,_ => none
  | .atLeast a b =>
      match a.eval r env,b.eval r env with
      | some (.number x),some (.number y) => some (.bool (y ≤ x))
      | _,_ => none
  | .equal a b =>
      match a.eval r env,b.eval r env with
      | some (.text x),some (.text y) => some (.bool (x = y))
      | some (.number x),some (.number y) => some (.bool (x = y))
      | _,_ => none

def Expr.eval (r : Request) (env : Env) : Expr → Option Value
  | .one c => c.eval r env
  | .both c e => (c.eval r env).bind fun v => if v.truthy then e.eval r env else some v

mutual

/-- The names after a statement, and what it returns if it does. -/
def Stmt.exec (r : Request) (env : Env) : Stmt → Option (Env × Option Value)
  | .declare x e => (e.eval r env).map fun v => ((x,v) :: env,none)
  | .give e => (e.eval r env).map fun v => (env,some v)
  | .when e body => (e.eval r env).bind fun v =>
      if v.truthy then execAll r env body else some (env,none)

def execAll (r : Request) (env : Env) : List Stmt → Option (Env × Option Value)
  | [] => some (env,none)
  | stmt :: stmts => (stmt.exec r env).bind fun
      | (env,some v) => some (env,some v)
      | (env,none) => execAll r env stmts

end

/-- What a rule answers to a request; nothing if it throws. -/
def Rule.answer (rule : Rule) (r : Request) : Option Value :=
  (execAll r [(rule.action,.action),(rule.subject,.subject),("polkit",.polkit)] rule.body).map
    fun (_,v) => v.getD .undefined

/-- The rule allows the request. -/
def Rule.Allows (rule : Rule) (r : Request) : Prop := rule.answer r = some (.result "YES")

instance (rule : Rule) (r : Request) : Decidable (rule.Allows r) :=
  inferInstanceAs (Decidable (_ = _))

end RuleScript
