import Atlas.Control.PolicyLoading
import Atlas.Lib.RuleReading
import Mathlib.Data.List.Sort

/-! The polkit rule that is rendered from a host policy, and the requests that it allows. -/
namespace Atlas
namespace HostPolicy

open RuleScript

/-- Nothing that is rendered holds a float. -/
instance noFloat : JsonText.FloatText Unit where
  repr _ := ['0','.','0']
  read _ := ()
  isFloat_repr _ := ⟨false,['0'],['.','0'],[],rfl,rfl,.inr ⟨['0'],rfl,by simp,by simp⟩,.inl rfl,
    .inl (by simp)⟩
  read_repr _ := rfl

/-- `json.dumps` of a list of texts. -/
def dumpsStrings (items : List String) : List Char :=
  JsonText.encode ⟨true,true⟩ (.arr (items.map fun s => .str s) : JsonText.Value Unit)

/-- `json.dumps(table, sort_keys=True)`. -/
def dumpsTable (table : Table) : List Char :=
  JsonText.encode ⟨true,true⟩
    (tableValue (table.insertionSort fun a b => a.1 ≤ b.1) : JsonText.Value Unit)

/-- The verbs of the units that are scoped by unit. -/
def unitVerbs (p : Policy) : Table :=
  p.units.map fun unit => (unit.1,unit.2.filter (manageUnitVerbs.contains ·))

/-- `table[key] = value`. -/
def putGrant : Table → String × List String → Table
  | [],grant => [grant]
  | g :: table,grant => if g.1 = grant.1 then grant :: table else g :: putGrant table grant

/-- What is granted by action: to every subject if unit files may be changed, and what the policy
grants explicitly. -/
def grantTable (p : Policy) : Table :=
  p.grants.foldl putGrant (if p.unitFileGrant then [(manageUnitFilesAction,p.subjects)] else [])

/-- The lines of the rule. -/
def ruleLines (p : Policy) : List (List Char) :=
  [("// Generated by Atlas from /etc/atlas-v5/config/host-policy.toml. " ++
      "Do not edit; edit the policy and re-run install-host-mcp.sh.").toList,
    "polkit.addRule(function(action, subject) \x7b".toList,
    "    var subjects = ".toList ++ dumpsStrings p.subjects ++ ";".toList,
    "    if (subjects.indexOf(subject.user) < 0) \x7b".toList,
    "        return polkit.Result.NOT_HANDLED;".toList,
    "    \x7d".toList,
    "    if (action.id == \"org.freedesktop.systemd1.manage-units\") \x7b".toList,
    "        var units = ".toList ++ dumpsTable (unitVerbs p) ++ ";".toList,
    "        var verbs = units[action.lookup(\"unit\")];".toList,
    "        if (verbs && verbs.indexOf(action.lookup(\"verb\")) >= 0) \x7b".toList,
    "            return polkit.Result.YES;".toList,
    "        \x7d".toList,
    "        return polkit.Result.NOT_HANDLED;".toList,
    "    \x7d".toList] ++
  (if (grantTable p).isEmpty then []
  else
    ["    // Per-action grants, each limited to the identities the policy names.".toList,
      "    var grants = ".toList ++ dumpsTable (grantTable p) ++ ";".toList,
      "    var identities = grants[action.id];".toList,
      "    if (identities && identities.indexOf(subject.user) >= 0) \x7b".toList,
      "        return polkit.Result.YES;".toList,
      "    \x7d".toList]) ++
  ["    return polkit.Result.NOT_HANDLED;".toList,"\x7d);".toList,[]]

/-- `"\n".join(lines)`. -/
def joinLines : List (List Char) → List Char
  | [] => []
  | [line] => line
  | line :: lines => line ++ '\n' :: joinLines lines

/-- `render_polkit_rules`. -/
def renderPolkitRules (p : Policy) : List Char := joinLines (ruleLines p)

/-! The program that the text is. -/

def resultOf (name : String) : Stmt :=
  .give (.one (.value (.member (.member (.name "polkit") "Result") name)))

/-- The list is there and holds what the term stands for. -/
def listHolds (x : String) (t : Term) : Expr :=
  .both (.value (.name x)) (.one (.atLeast (.call (.name x) "indexOf" t) (.number 0)))

/-- What the rule does for the action that is scoped by unit. -/
def unitStatements (p : Policy) : List Stmt :=
  [.declare "units" (.one (.value (.table ((unitVerbs p).insertionSort fun a b => a.1 ≤ b.1)))),
    .declare "verbs" (.one (.value
      (.index (.name "units") (.call (.name "action") "lookup" (.text "unit"))))),
    .when (listHolds "verbs" (.call (.name "action") "lookup" (.text "verb"))) [resultOf "YES"],
    resultOf "NOT_HANDLED"]

def grantStatements (p : Policy) : List Stmt :=
  [.declare "grants" (.one (.value (.table ((grantTable p).insertionSort fun a b => a.1 ≤ b.1)))),
    .declare "identities" (.one (.value (.index (.name "grants") (.member (.name "action") "id")))),
    .when (listHolds "identities" (.member (.name "subject") "user")) [resultOf "YES"]]

def polkitRule (p : Policy) : Rule where
  action := "action"
  subject := "subject"
  body :=
    [.declare "subjects" (.one (.value (.strings p.subjects))),
      .when (.one (.less (.call (.name "subjects") "indexOf" (.member (.name "subject") "user"))
        (.number 0))) [resultOf "NOT_HANDLED"],
      .when (.one (.equal (.member (.name "action") "id") (.text manageUnitsAction)))
        (unitStatements p)] ++
    (if (grantTable p).isEmpty then [] else grantStatements p) ++ [resultOf "NOT_HANDLED"]

def unitTokens (p : Policy) : List (List Token) :=
  [[Token.word "var",.word "units",.mark "="] ++ (.mark "\x7b" ::
      tableTokens ((unitVerbs p).insertionSort fun a b => a.1 ≤ b.1) ++ [Token.mark ";"]),
    [.word "var",.word "verbs",.mark "=",.word "units",.mark "[",.word "action",.mark ".",
      .word "lookup",.mark "(",.text "unit",.mark ")",.mark "]",.mark ";"],
    [.word "if",.mark "(",.word "verbs",.mark "&&",.word "verbs",.mark ".",.word "indexOf",.mark "(",
      .word "action",.mark ".",.word "lookup",.mark "(",.text "verb",.mark ")",.mark ")",.mark ">=",
      .number 0,.mark ")",.mark "\x7b"],
    [.word "return",.word "polkit",.mark ".",.word "Result",.mark ".",.word "YES",.mark ";"],
    [.mark "\x7d"],
    [.word "return",.word "polkit",.mark ".",.word "Result",.mark ".",.word "NOT_HANDLED",.mark ";"],
    [.mark "\x7d"]]

def headTokens (p : Policy) : List (List Token) :=
  [[],
    [.word "polkit",.mark ".",.word "addRule",.mark "(",.word "function",.mark "(",.word "action",
      .mark ",",.word "subject",.mark ")",.mark "\x7b"],
    [Token.word "var",.word "subjects",.mark "="] ++
      (.mark "[" :: stringsTokens p.subjects ++ [Token.mark ";"]),
    [.word "if",.mark "(",.word "subjects",.mark ".",.word "indexOf",.mark "(",.word "subject",
      .mark ".",.word "user",.mark ")",.mark "<",.number 0,.mark ")",.mark "\x7b"],
    [.word "return",.word "polkit",.mark ".",.word "Result",.mark ".",.word "NOT_HANDLED",.mark ";"],
    [.mark "\x7d"],
    [.word "if",.mark "(",.word "action",.mark ".",.word "id",.mark "==",.text manageUnitsAction,
      .mark ")",.mark "\x7b"]]

def grantTokens (p : Policy) : List (List Token) :=
  [[],
    [Token.word "var",.word "grants",.mark "="] ++ (.mark "\x7b" ::
      tableTokens ((grantTable p).insertionSort fun a b => a.1 ≤ b.1) ++ [Token.mark ";"]),
    [.word "var",.word "identities",.mark "=",.word "grants",.mark "[",.word "action",.mark ".",
      .word "id",.mark "]",.mark ";"],
    [.word "if",.mark "(",.word "identities",.mark "&&",.word "identities",.mark ".",
      .word "indexOf",.mark "(",.word "subject",.mark ".",.word "user",.mark ")",.mark ">=",.number 0,
      .mark ")",.mark "\x7b"],
    [.word "return",.word "polkit",.mark ".",.word "Result",.mark ".",.word "YES",.mark ";"],
    [.mark "\x7d"]]

/-- A declaration of a value by its text. -/
theorem holds_declaration {s : String} {cs value : List Char} {ts : List Token} {t : Token}
    {ts' : List Token} {n : ℕ} (hs : s = String.ofList cs)
    (hstart : ∀ rest, lexSome n (cs ++ rest) = some (ts,' ' :: rest))
    (hvalue : ∀ rest, Lexes (value ++ rest) (t :: ts') rest) :
    HoldsTokens (s.toList ++ value ++ ";".toList) (ts ++ (t :: ts' ++ [Token.mark ";"])) := by
  refine holdsTokens_of_lexes fun rest => ?_
  rw [toList_of_eq hs]
  have hlist := (hvalue (";".toList ++ '\n' :: rest)).append (lexes_of_lexSome (n := 1) rfl)
  have hdeclare := (lexes_of_lexSome (hstart (value ++ (";".toList ++ '\n' :: rest)))).append
    (Lexes.blank (c := ' ') hlist (.inl rfl))
  rw [List.append_assoc,List.append_assoc]
  exact hdeclare

/-- A line that is a comment. -/
theorem holds_comment {line text : List Char} (indent : ℕ)
    (h : line = List.replicate indent ' ' ++ '/' :: '/' :: text) (hbreak : '\n' ∉ text) :
    HoldsTokens line [] := by
  rw [h]
  exact holdsTokens_comment hbreak indent

theorem holds_head (p : Policy) :
    List.Forall₂ HoldsTokens ((ruleLines p).take 7) (headTokens p) := by
  refine .cons ?_ (.cons ?_ (.cons ?_ (.cons ?_ (.cons ?_ (.cons ?_ (.cons ?_ .nil))))))
  · refine holds_comment 0 ((String.toList_append.trans (congrArg₂ (· ++ ·) (toList_of_eq rfl)
      (toList_of_eq rfl))).trans rfl) ?_
    decide +kernel
  · exact holdsTokens_text rfl 11 fun _ => rfl
  · exact holds_declaration (s := "    var subjects = ") (n := 3) rfl (fun _ => rfl)
      (lexes_strings p.subjects)
  · exact holdsTokens_text rfl 14 fun _ => rfl
  · exact holdsTokens_text rfl 7 fun _ => rfl
  · exact holdsTokens_text rfl 1 fun _ => rfl
  · exact holdsTokens_text rfl 9 fun _ => rfl

theorem holds_units (p : Policy) :
    List.Forall₂ HoldsTokens (((ruleLines p).drop 7).take 7) (unitTokens p) := by
  refine .cons ?_ (.cons ?_ (.cons ?_ (.cons ?_ (.cons ?_ (.cons ?_ (.cons ?_ .nil))))))
  · exact holds_declaration (s := "        var units = ") (n := 3) rfl (fun _ => rfl) (lexes_table _)
  · exact holdsTokens_text rfl 13 fun _ => rfl
  · exact holdsTokens_text rfl 19 fun _ => rfl
  · exact holdsTokens_text rfl 7 fun _ => rfl
  · exact holdsTokens_text rfl 1 fun _ => rfl
  · exact holdsTokens_text rfl 7 fun _ => rfl
  · exact holdsTokens_text rfl 1 fun _ => rfl

theorem holds_grants {p : Policy} (h : (grantTable p).isEmpty = false) :
    List.Forall₂ HoldsTokens (((ruleLines p).drop 14).take 6) (grantTokens p) := by
  have hlines : ((ruleLines p).drop 14).take 6 =
      ["    // Per-action grants, each limited to the identities the policy names.".toList,
        "    var grants = ".toList ++ dumpsTable (grantTable p) ++ ";".toList,
        "    var identities = grants[action.id];".toList,
        "    if (identities && identities.indexOf(subject.user) >= 0) \x7b".toList,
        "        return polkit.Result.YES;".toList,
        "    \x7d".toList] := by
    rw [ruleLines,h]
    rfl
  rw [hlines]
  refine .cons ?_ (.cons ?_ (.cons ?_ (.cons ?_ (.cons ?_ (.cons ?_ .nil)))))
  · refine holds_comment 4 (toList_of_eq rfl) ?_
    decide +kernel
  · exact holds_declaration (s := "    var grants = ") (n := 3) rfl (fun _ => rfl) (lexes_table _)
  · exact holdsTokens_text rfl 10 fun _ => rfl
  · exact holdsTokens_text rfl 16 fun _ => rfl
  · exact holdsTokens_text rfl 7 fun _ => rfl
  · exact holdsTokens_text rfl 1 fun _ => rfl

/-! What is left after the statements of the rule. -/

def endTokens : List Token :=
  [.word "return",.word "polkit",.mark ".",.word "Result",.mark ".",.word "NOT_HANDLED",.mark ";",
    .mark "\x7d",.mark ")",.mark ";"]

theorem parse_result {w : String} (fuel : ℕ) {ts rest : List Token} {stmts : List Stmt}
    (h : parseBlock (fuel + 5) ts = some (stmts,rest)) :
    parseBlock (fuel + 6) (.word "return" :: .word "polkit" :: .mark "." :: .word "Result" ::
      .mark "." :: .word w :: .mark ";" :: ts) = some (resultOf w :: stmts,rest) :=
  parseBlock_give rfl h

theorem parse_declaration {x : String} {t : Term} (fuel : ℕ) {ts mid rest : List Token}
    {stmts : List Stmt} (ht : parseAtom ts = some (t,.mark ";" :: mid))
    (h : parseBlock (fuel + 3) mid = some (stmts,rest)) :
    parseBlock (fuel + 4) (.word "var" :: .word x :: .mark "=" :: ts) =
      some (.declare x (.one (.value t)) :: stmts,rest) :=
  parseBlock_declare (parseUntil_atom fuel ht (.inl rfl)) h

theorem parse_units {p : Policy} (h : Plain ((unitVerbs p).insertionSort fun a b => a.1 ≤ b.1))
    (fuel : ℕ) (ts : List Token) :
    parseBlock (fuel + 20) ((unitTokens p).flatten ++ ts) = some (unitStatements p,ts) := by
  have hlast := parse_result (w := "NOT_HANDLED") (fuel + 11)
    (parseBlock_close (fuel + 15) ts)
  have hyes := parse_result (w := "YES") (fuel + 11) (parseBlock_close (fuel + 15)
    (.word "return" :: .word "polkit" :: .mark "." :: .word "Result" :: .mark "." ::
      .word "NOT_HANDLED" :: .mark ";" :: .mark "\x7d" :: ts))
  have hwhen := parseBlock_when (k := fuel + 17)
    (l := .word "verbs" :: .mark "&&" :: .word "verbs" :: .mark "." :: .word "indexOf" ::
      .mark "(" :: .word "action" :: .mark "." :: .word "lookup" :: .mark "(" :: .text "verb" ::
      .mark ")" :: .mark ")" :: .mark ">=" :: .number 0 :: .mark ")" :: .mark "\x7b" ::
      .word "return" :: .word "polkit" :: .mark "." :: .word "Result" :: .mark "." ::
      .word "YES" :: .mark ";" :: .mark "\x7d" :: .word "return" :: .word "polkit" :: .mark "." ::
      .word "Result" :: .mark "." :: .word "NOT_HANDLED" :: .mark ";" :: .mark "\x7d" :: ts)
    rfl hyes hlast
  have hverbs := parseBlock_declare (k := fuel + 18) (x := "verbs")
    (l := .word "units" :: .mark "[" :: .word "action" :: .mark "." :: .word "lookup" ::
      .mark "(" :: .text "unit" :: .mark ")" :: .mark "]" :: .mark ";" :: _) rfl hwhen
  have hunits := parse_declaration (x := "units") (fuel + 16) (parseAtom_table h _) hverbs
  simpa [unitTokens,unitStatements,listHolds] using hunits

/-- The statements of the grants, before those that follow them. -/
theorem parse_grants {p : Policy} (h : Plain ((grantTable p).insertionSort fun a b => a.1 ≤ b.1))
    (fuel : ℕ) {ts rest : List Token} {stmts : List Stmt}
    (hmore : parseBlock (fuel + 20) ts = some (stmts,rest)) :
    parseBlock (fuel + 23) ((grantTokens p).flatten ++ ts) =
      some (grantStatements p ++ stmts,rest) := by
  have hyes := parse_result (w := "YES") (fuel + 14) (parseBlock_close (fuel + 18) ts)
  have hwhen := parseBlock_when (k := fuel + 20)
    (l := .word "identities" :: .mark "&&" :: .word "identities" :: .mark "." ::
      .word "indexOf" :: .mark "(" :: .word "subject" :: .mark "." :: .word "user" :: .mark ")" ::
      .mark ">=" :: .number 0 :: .mark ")" :: .mark "\x7b" ::
      .word "return" :: .word "polkit" :: .mark "." :: .word "Result" :: .mark "." ::
      .word "YES" :: .mark ";" :: .mark "\x7d" :: ts) rfl hyes hmore
  have hidentities := parseBlock_declare (k := fuel + 21) (x := "identities")
    (l := .word "grants" :: .mark "[" :: .word "action" :: .mark "." :: .word "id" ::
      .mark "]" :: .mark ";" :: _) rfl hwhen
  have hgrants := parse_declaration (x := "grants") (fuel + 19) (parseAtom_table h _) hidentities
  simpa [grantTokens,grantStatements,listHolds] using hgrants

/-- The tokens of the rule. -/
def ruleTokens (p : Policy) : List Token :=
  (headTokens p).flatten ++ ((unitTokens p).flatten ++
    (((if (grantTable p).isEmpty then [] else grantTokens p).flatten) ++ endTokens))

theorem parseBlock_end (fuel : ℕ) :
    parseBlock (fuel + 20) endTokens = some ([resultOf "NOT_HANDLED"],[.mark ")",.mark ";"]) :=
  parse_result (w := "NOT_HANDLED") (fuel + 14) (parseBlock_close (fuel + 18) _)

theorem parse_rule {p : Policy} (hunits : Plain ((unitVerbs p).insertionSort fun a b => a.1 ≤ b.1))
    (hgrants : Plain ((grantTable p).insertionSort fun a b => a.1 ≤ b.1)) :
    parseRule (ruleTokens p) = some (polkitRule p) := by
  have hbody : ∀ fuel, parseBlock (fuel + 26) ((ruleTokens p).drop 11) =
      some ((polkitRule p).body,[.mark ")",.mark ";"]) := by
    intro fuel
    have hrest : parseBlock (fuel + 23)
        ((((if (grantTable p).isEmpty then [] else grantTokens p).flatten) ++ endTokens)) =
        some ((if (grantTable p).isEmpty then [] else grantStatements p) ++
          [resultOf "NOT_HANDLED"],[.mark ")",.mark ";"]) := by
      split_ifs
      · exact parseBlock_end (fuel + 3)
      · exact parse_grants hgrants fuel (parseBlock_end fuel)
    have haction := parseBlock_when (k := fuel + 23)
      (l := .word "action" :: .mark "." :: .word "id" :: .mark "==" :: .text manageUnitsAction ::
        .mark ")" :: .mark "\x7b" :: _) rfl (parse_units hunits (fuel + 3) _) hrest
    have hnone := parse_result (w := "NOT_HANDLED") (fuel + 18) (parseBlock_close (fuel + 22)
      (.word "if" :: .mark "(" :: .word "action" :: .mark "." :: .word "id" :: .mark "==" ::
        .text manageUnitsAction :: .mark ")" :: .mark "\x7b" :: ((unitTokens p).flatten ++
          (((if (grantTable p).isEmpty then [] else grantTokens p).flatten) ++ endTokens))))
    have hwhen := parseBlock_when (k := fuel + 24)
      (l := .word "subjects" :: .mark "." :: .word "indexOf" :: .mark "(" :: .word "subject" ::
        .mark "." :: .word "user" :: .mark ")" :: .mark "<" :: .number 0 :: .mark ")" ::
        .mark "\x7b" :: _) rfl hnone haction
    have hsubjects := parse_declaration (x := "subjects") (fuel + 22)
      (parseAtom_strings p.subjects _) hwhen
    simpa [ruleTokens,headTokens,polkitRule] using hsubjects
  have hlength : 26 ≤ ((ruleTokens p).drop 11).length := by
    simp [ruleTokens,headTokens,endTokens]
    omega
  obtain ⟨fuel,hfuel⟩ := Nat.exists_eq_add_of_le' hlength
  have hblock := hbody fuel
  rw [← hfuel] at hblock
  exact parseRule_block hblock

theorem joinLines_append (lines : List (List Char)) {line : List Char} (rest : List (List Char)) :
    joinLines (lines ++ line :: rest) = stack lines (joinLines (line :: rest)) := by
  induction lines with
  | nil => rfl
  | cons l lines ih =>
    have hne : ∃ l' ls, lines ++ line :: rest = l' :: ls := by cases lines <;> simp
    obtain ⟨l',ls,hls⟩ := hne
    rw [List.cons_append,hls,joinLines,← hls,ih]
    · rfl
    · simp

theorem ruleLines_eq (p : Policy) :
    ruleLines p = ((ruleLines p).take 7 ++ (((ruleLines p).drop 7).take 7 ++
      (if (grantTable p).isEmpty then [] else ((ruleLines p).drop 14).take 6))) ++
      ["    return polkit.Result.NOT_HANDLED;".toList,"\x7d);".toList,[]] := by
  unfold ruleLines
  split_ifs <;> rfl

/-- The text that is rendered is the text of the rule. -/
theorem readRule_render {p : Policy}
    (hunits : Plain ((unitVerbs p).insertionSort fun a b => a.1 ≤ b.1))
    (hgrants : Plain ((grantTable p).insertionSort fun a b => a.1 ≤ b.1)) :
    readRule (renderPolkitRules p) = some (polkitRule p) := by
  have hend : Lexes (joinLines ["    return polkit.Result.NOT_HANDLED;".toList,"\x7d);".toList,[]])
      endTokens ['\n'] := lexes_of_lexSome (n := 10) rfl
  have hlines : List.Forall₂ HoldsTokens ((ruleLines p).take 7 ++ (((ruleLines p).drop 7).take 7 ++
      (if (grantTable p).isEmpty then [] else ((ruleLines p).drop 14).take 6)))
      (headTokens p ++ (unitTokens p ++ (if (grantTable p).isEmpty then [] else grantTokens p))) := by
    refine List.rel_append (holds_head p) (List.rel_append (holds_units p) ?_)
    split_ifs with h
    · exact .nil
    · exact holds_grants (by simpa using h)
  have htext := lexes_stack hlines hend
  rw [renderPolkitRules,ruleLines_eq,joinLines_append,readRule_of_lexes htext rfl,
    ← parse_rule hunits hgrants]
  simp [ruleTokens,endTokens]

/-! What the rule allows. -/

section

variable {r : Request} {env : Env}

theorem returns_result {name : String} (hname : name ∈ outcomes)
    (henv : env.lookup "polkit" = some .polkit) (stmts : List Stmt) (v : Value) :
    Returns r env (resultOf name :: stmts) v ↔ .result name = v :=
  returns_give (by simp [Expr.eval,Comparison.eval,Term.eval,henv,Value.member,hname]) stmts

/-- A list that was looked up decides whether the next statements allow the request. -/
theorem returns_listed {x : String} {t : Term} {fields : Table} {key : String} {w : Value}
    (hpolkit : env.lookup "polkit" = some .polkit) (hx : env.lookup x = some (field fields key))
    (ht : t.eval r env = some w) (hw : w = .undefined ∨ ∃ s, w = .text s) (stmts : List Stmt) :
    Returns r env (.when (listHolds x t) [resultOf "YES"] :: resultOf "NOT_HANDLED" :: stmts)
      (.result "YES") ↔ ∃ items s, field fields key = .strings items ∧ w = .text s ∧ s ∈ items := by
  have hno : ¬Returns r env (resultOf "NOT_HANDLED" :: stmts) (.result "YES") := by
    rw [returns_result (by decide) hpolkit]
    simp
  have hyes : Returns r env ([] ++ [resultOf "YES"]) (.result "YES") := by
    rw [List.nil_append,returns_result (by decide) hpolkit]
  rcases field_cases fields key with ⟨items,hitems⟩ | hother | hother
  · rw [hitems] at hx
    simp only [hitems,Value.strings.injEq,exists_and_left,exists_eq_left']
    rcases hw with rfl | ⟨s,rfl⟩
    · have heval : (listHolds x t).eval r env = some (.bool false) := by
        simp [listHolds,Expr.eval,Comparison.eval,Term.eval,hx,ht,Value.truthy,Value.call]
      rw [returns_skip heval rfl]
      simp [hno]
    · by_cases hs : s ∈ items
      · have heval : (listHolds x t).eval r env = some (.bool true) := by
          simp [listHolds,Expr.eval,Comparison.eval,Term.eval,hx,ht,Value.truthy,Value.call,hs]
        have henter := (returns_enter heval rfl [] (resultOf "NOT_HANDLED" :: stmts)).mpr hyes
        simp only [Value.text.injEq,exists_eq_left',hs,iff_true]
        exact henter
      · have heval : (listHolds x t).eval r env = some (.bool false) := by
          simp [listHolds,Expr.eval,Comparison.eval,Term.eval,hx,ht,Value.truthy,Value.call,hs]
        rw [returns_skip heval rfl]
        simp [hno,hs]
  · rw [hother] at hx
    have heval : (listHolds x t).eval r env = none := by
      simp [listHolds,Expr.eval,Comparison.eval,Term.eval,hx,ht,Value.truthy,Value.call]
    simp [hother,returns_throw heval]
  · rw [hother] at hx
    have heval : (listHolds x t).eval r env = some .undefined := by
      simp [listHolds,Expr.eval,Comparison.eval,Term.eval,hx,Value.truthy]
    rw [returns_skip heval rfl]
    simp [hother,hno]

end

/-! The tables of an accepted policy. -/

theorem mem_putGrant {table : Table} (h : (table.map Prod.fst).Nodup) (grant g : String × List String) :
    g ∈ putGrant table grant ↔ g = grant ∨ (g ∈ table ∧ g.1 ≠ grant.1) := by
  induction table with
  | nil => simp [putGrant]
  | cons first table ih =>
    rw [List.map_cons,List.nodup_cons] at h
    by_cases hkey : first.1 = grant.1
    · have hother : ∀ g ∈ table, g.1 ≠ grant.1 := fun g hg heq =>
        h.1 (List.mem_map.mpr ⟨g,hg,heq.trans hkey.symm⟩)
      simp only [putGrant,hkey,if_true,List.mem_cons]
      constructor
      · rintro (rfl | hg)
        · exact .inl rfl
        · exact .inr ⟨.inr hg,hother g hg⟩
      · rintro (rfl | ⟨rfl | hg,hne⟩)
        · exact .inl rfl
        · exact absurd hkey hne
        · exact .inr hg
    · simp only [putGrant,hkey,if_false,List.mem_cons,ih h.2]
      constructor
      · rintro (rfl | rfl | ⟨hg,hne⟩)
        · exact .inr ⟨.inl rfl,hkey⟩
        · exact .inl rfl
        · exact .inr ⟨.inr hg,hne⟩
      · rintro (rfl | ⟨rfl | hg,hne⟩)
        · exact .inr (.inl rfl)
        · exact .inl rfl
        · exact .inr (.inr ⟨hg,hne⟩)

theorem putGrant_once {table : Table} (h : (table.map Prod.fst).Nodup) (grant : String × List String) :
    ((putGrant table grant).map Prod.fst).Nodup := by
  induction table with
  | nil => simp [putGrant]
  | cons first table ih =>
    have hall := h
    rw [List.map_cons,List.nodup_cons] at h
    by_cases hkey : first.1 = grant.1
    · simpa [putGrant,hkey] using hall
    · have hfirst : first.1 ∉ (putGrant table grant).map Prod.fst := by
        simp only [List.mem_map,not_exists,not_and]
        intro g hg heq
        rcases (mem_putGrant h.2 grant g).mp hg with rfl | ⟨hg,_⟩
        · exact hkey heq.symm
        · exact h.1 (List.mem_map.mpr ⟨g,hg,heq⟩)
      simp only [putGrant,hkey,if_false,List.map_cons,List.nodup_cons]
      exact ⟨hfirst,ih h.2⟩

theorem foldl_putGrant {grants table : Table} (htable : (table.map Prod.fst).Nodup)
    (hgrants : (grants.map Prod.fst).Nodup) :
    ((grants.foldl putGrant table).map Prod.fst).Nodup ∧ ∀ g, g ∈ grants.foldl putGrant table ↔
      g ∈ grants ∨ (g ∈ table ∧ g.1 ∉ grants.map Prod.fst) := by
  induction grants generalizing table with
  | nil => exact ⟨htable,by simp⟩
  | cons grant grants ih =>
    rw [List.map_cons,List.nodup_cons] at hgrants
    obtain ⟨honce,hmem⟩ := ih (putGrant_once htable grant) hgrants.2
    refine ⟨honce,fun g => ?_⟩
    rw [List.foldl_cons,hmem,mem_putGrant htable,List.mem_cons,List.map_cons,List.mem_cons,not_or]
    constructor
    · rintro (hg | ⟨rfl | ⟨hg,hne⟩,hnot⟩)
      · exact .inl (.inr hg)
      · exact .inl (.inl rfl)
      · exact .inr ⟨hg,hne,hnot⟩
    · rintro ((rfl | hg) | ⟨hg,hne,hnot⟩)
      · exact .inr ⟨.inl rfl,hgrants.1⟩
      · exact .inl hg
      · exact .inr ⟨.inr ⟨hg,hne⟩,hnot⟩

/-- A field of a table whose keys are sorted. -/
theorem field_sorted {table : Table} (h : (table.map Prod.fst).Nodup) (key : String)
    (items : List String) :
    field (table.insertionSort fun a b => a.1 ≤ b.1) key = .strings items ↔ (key,items) ∈ table := by
  have hperm := List.perm_insertionSort (fun a b : String × List String => a.1 ≤ b.1) table
  rw [field_eq_strings_iff ((hperm.map Prod.fst).nodup_iff.mpr h),hperm.mem_iff]

theorem plain_sorted {table : Table} (h : Plain table) :
    Plain (table.insertionSort fun a b => a.1 ≤ b.1) := by
  intro f hf
  exact h f ((List.perm_insertionSort _ table).mem_iff.mp hf)

namespace Policy.Accepted

variable {p : Policy} (hp : p.Accepted)

include hp

theorem unitVerbs_once : ((unitVerbs p).map Prod.fst).Nodup := by
  have hkeys : (unitVerbs p).map Prod.fst = p.units.map Prod.fst := by simp [unitVerbs]
  rw [hkeys]
  exact hp.units.once

omit hp in
theorem mem_unitVerbs (unit : String) (verbs : List String) : (unit,verbs) ∈ unitVerbs p ↔
    ∃ listed, (unit,listed) ∈ p.units ∧ verbs = listed.filter (manageUnitVerbs.contains ·) := by
  simp only [unitVerbs,List.mem_map,Prod.exists,Prod.mk.injEq]
  constructor
  · rintro ⟨_,listed,hmem,rfl,rfl⟩
    exact ⟨listed,hmem,rfl⟩
  · rintro ⟨listed,hmem,rfl⟩
    exact ⟨unit,listed,hmem,rfl,rfl⟩

theorem unitName_of_mem {unit : String} {verbs : List String} (h : (unit,verbs) ∈ unitVerbs p) :
    unitName unit = true := by
  obtain ⟨listed,hmem,_⟩ := (mem_unitVerbs unit verbs).mp h
  have hname := hp.units.names (unit,listed) hmem
  exact hname

theorem plain_unitVerbs : Plain (unitVerbs p) := by
  intro f hf hproto
  have hname := hp.unitName_of_mem hf
  rw [hproto] at hname
  exact absurd hname (by decide)

theorem grantTable_once : ((grantTable p).map Prod.fst).Nodup := by
  refine (foldl_putGrant ?_ hp.grants.once).1
  split_ifs <;> simp

theorem mem_grantTable (action : String) (names : List String) :
    (action,names) ∈ grantTable p ↔ (action,names) ∈ p.grants ∨
      (action = manageUnitFilesAction ∧ p.unitFileGrant = true ∧ names = p.subjects ∧
        manageUnitFilesAction ∉ p.grants.map Prod.fst) := by
  have hmem := (@foldl_putGrant p.grants
    (if p.unitFileGrant then [(manageUnitFilesAction,p.subjects)] else [])
    (by split_ifs <;> simp) hp.grants.once).2 (action,names)
  refine hmem.trans (or_congr_right ?_)
  by_cases hfiles : p.unitFileGrant = true
  · simp only [hfiles,if_true,List.mem_singleton,Prod.mk.injEq,true_and]
    constructor
    · rintro ⟨⟨rfl,rfl⟩,hnot⟩
      exact ⟨rfl,rfl,hnot⟩
    · rintro ⟨rfl,rfl,hnot⟩
      exact ⟨⟨rfl,rfl⟩,hnot⟩
  · simp [hfiles]

theorem plain_grantTable : Plain (grantTable p) := by
  intro f hf hproto
  rcases (hp.mem_grantTable f.1 f.2).mp hf with hmem | ⟨heq,_⟩
  · have haction := hp.grants.actions _ hmem
    rw [hproto] at haction
    exact absurd haction (by decide)
  · rw [hproto] at heq
    exact absurd heq (by decide)

theorem readRule_eq : readRule (renderPolkitRules p) = some (polkitRule p) :=
  readRule_render (plain_sorted hp.plain_unitVerbs) (plain_sorted hp.plain_grantTable)

/-- The statements for units allow a request of a verb that its unit lists. -/
theorem returns_units {r : Request} {env : Env} (hpolkit : env.lookup "polkit" = some .polkit)
    (haction : env.lookup "action" = some .action) :
    Returns r env (unitStatements p) (.result "YES") ↔
      ∃ unit verb verbs, r.details "unit" = some unit ∧ r.details "verb" = some verb ∧
        (unit,verbs) ∈ unitVerbs p ∧ verb ∈ verbs := by
  let units := (unitVerbs p).insertionSort fun a b => a.1 ≤ b.1
  let key := (r.details "unit").getD "undefined"
  have hverbs : (Term.index (.name "units") (.call (.name "action") "lookup" (.text "unit"))).eval r
      (("units",.table units) :: env) = some (field units key) := by
    have hlookup : (("units",.table units) :: env).lookup "action" = some Value.action := haction
    cases hunit : r.details "unit" <;>
      simp [Term.eval,hlookup,Value.call,Value.index,hunit,key]
  have hverb : (Term.call (.name "action") "lookup" (.text "verb")).eval r
      (("verbs",field units key) :: ("units",.table units) :: env) =
        some (((r.details "verb").map .text).getD .undefined) := by
    have hlookup : (("verbs",field units key) :: ("units",.table units) :: env).lookup "action" =
      some Value.action := haction
    simp [Term.eval,hlookup,Value.call]
  have htext : ((r.details "verb").map Value.text).getD .undefined = .undefined ∨
      ∃ s, ((r.details "verb").map Value.text).getD .undefined = .text s := by
    cases r.details "verb" <;> simp
  rw [unitStatements,returns_declare rfl,returns_declare hverbs,
    returns_listed (by exact hpolkit) rfl hverb htext]
  constructor
  · rintro ⟨items,verb,hitems,htext,hverb⟩
    rw [field_sorted hp.unitVerbs_once] at hitems
    cases hunit : r.details "unit" with
    | none =>
      have hname := hp.unitName_of_mem hitems
      simp only [key,hunit,Option.getD_none] at hname
      exact absurd hname (by decide)
    | some unit =>
      simp only [key,hunit,Option.getD_some] at hitems
      cases hd : r.details "verb" with
      | none => simp [hd] at htext
      | some verb' =>
        simp only [hd,Option.map_some,Option.getD_some,Value.text.injEq] at htext
        subst htext
        exact ⟨unit,verb',items,rfl,rfl,hitems,hverb⟩
  · rintro ⟨unit,verb,verbs,hunit,hd,hmem,hverb⟩
    refine ⟨verbs,verb,?_,by simp [hd],hverb⟩
    rw [field_sorted hp.unitVerbs_once]
    simpa [key,hunit] using hmem

/-- The statements of the grants allow a request of a subject that the grant of its action
names. -/
theorem returns_grants {r : Request} {env : Env} (hpolkit : env.lookup "polkit" = some .polkit)
    (haction : env.lookup "action" = some .action)
    (hsubject : env.lookup "subject" = some .subject) :
    Returns r env (grantStatements p ++ [resultOf "NOT_HANDLED"]) (.result "YES") ↔
      ∃ names, (r.action,names) ∈ grantTable p ∧ r.user ∈ names := by
  let grants := (grantTable p).insertionSort fun a b => a.1 ≤ b.1
  have hnames : (Term.index (.name "grants") (.member (.name "action") "id")).eval r
      (("grants",.table grants) :: env) = some (field grants r.action) := by
    have hlookup : (("grants",.table grants) :: env).lookup "action" = some Value.action := haction
    simp [Term.eval,hlookup,Value.member,Value.index]
  have huser : (Term.member (.name "subject") "user").eval r
      (("identities",field grants r.action) :: ("grants",.table grants) :: env) =
        some (.text r.user) := by
    have hlookup : (("identities",field grants r.action) :: ("grants",.table grants) ::
      env).lookup "subject" = some Value.subject := hsubject
    simp [Term.eval,hlookup,Value.member]
  simp only [grantStatements,List.cons_append,List.nil_append]
  rw [returns_declare rfl,returns_declare hnames,
    returns_listed (by exact hpolkit) rfl huser (.inr ⟨r.user,rfl⟩)]
  simp only [Value.text.injEq,exists_and_left,exists_eq_left',grants,
    field_sorted hp.grantTable_once]

/-- What the rule of an accepted policy allows. -/
theorem allows_iff (r : Request) : (polkitRule p).Allows r ↔ r.user ∈ p.subjects ∧
    if r.action = manageUnitsAction then
      ∃ unit verb verbs, r.details "unit" = some unit ∧ r.details "verb" = some verb ∧
        (unit,verbs) ∈ unitVerbs p ∧ verb ∈ verbs
    else ∃ names, (r.action,names) ∈ grantTable p ∧ r.user ∈ names := by
  let env : Env := [("subjects",.strings p.subjects),("action",.action),("subject",.subject),
    ("polkit",.polkit)]
  have hguard : (Expr.one (.less (.call (.name "subjects") "indexOf"
      (.member (.name "subject") "user")) (.number 0))).eval r env =
        some (.bool (decide (r.user ∉ p.subjects))) := by
    have hlist : env.lookup "subjects" = some (.strings p.subjects) := rfl
    have hsubject : env.lookup "subject" = some .subject := rfl
    by_cases huser : r.user ∈ p.subjects <;>
      simp [Expr.eval,Comparison.eval,Term.eval,hlist,hsubject,Value.member,Value.call,huser]
  have haction : (Expr.one (.equal (.member (.name "action") "id") (.text manageUnitsAction))).eval
      r env = some (.bool (decide (r.action = manageUnitsAction))) := by
    have hlookup : env.lookup "action" = some .action := rfl
    simp [Expr.eval,Comparison.eval,Term.eval,hlookup,Value.member]
  rw [allows_iff_returns]
  simp only [polkitRule,List.cons_append,List.nil_append]
  rw [returns_declare rfl]
  by_cases huser : r.user ∈ p.subjects
  · have hskip : Value.truthy (.bool (decide (r.user ∉ p.subjects))) = false := by
      simp [Value.truthy,huser]
    rw [returns_skip hguard hskip]
    by_cases hunits : r.action = manageUnitsAction
    · have henter : Value.truthy (.bool (decide (r.action = manageUnitsAction))) = true := by
        simp [Value.truthy,hunits]
      have hbody := returns_enter haction henter ((unitStatements p).take 3)
        ((if (grantTable p).isEmpty then [] else grantStatements p) ++ [resultOf "NOT_HANDLED"])
        (w := .result "YES") (d := .one (.value (.member (.member (.name "polkit") "Result")
          "NOT_HANDLED")))
      refine hbody.trans ((hp.returns_units rfl rfl).trans ?_)
      simp [huser,hunits]
    · have hskip : Value.truthy (.bool (decide (r.action = manageUnitsAction))) = false := by
        simp [Value.truthy,hunits]
      rw [returns_skip haction hskip]
      simp only [huser,hunits,if_false,true_and]
      by_cases hempty : (grantTable p).isEmpty = true
      · rw [if_pos hempty,List.nil_append,returns_result (by decide) rfl]
        simp [List.isEmpty_iff.mp hempty]
      · rw [if_neg hempty]
        exact hp.returns_grants rfl rfl rfl
  · have henter : Value.truthy (.bool (decide (r.user ∉ p.subjects))) = true := by
      simp [Value.truthy,huser]
    have hbody := fun stmts => returns_enter hguard henter [] stmts (w := .result "YES")
      (d := .one (.value (.member (.member (.name "polkit") "Result") "NOT_HANDLED")))
    have hno : Returns r env [resultOf "NOT_HANDLED"] (.result "YES") ↔
        Value.result "NOT_HANDLED" = .result "YES" := returns_result (by decide) rfl [] _
    refine (hbody _).trans (hno.trans ?_)
    simp [huser]

end Policy.Accepted

end HostPolicy
end Atlas
