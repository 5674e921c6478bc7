import Atlas.Lib.RuleScript

/-! How the texts of rules are read: token by token, with the texts of arrays and tables of
strings in between. -/
namespace RuleScript

/-! Tokens are shorter than what they are read from. -/

theorem skipBlank_length_le (comment : Bool) (cs : List Char) :
    (skipBlank comment cs).length ≤ cs.length := by
  fun_induction skipBlank comment cs with
  | case1 => exact Nat.le_refl _
  | case2 c cs ih => simp only [List.length_cons]; omega
  | case3 cs ih => simp only [List.length_cons]; omega
  | case4 c cs _ _ ih => simp only [List.length_cons]; omega
  | case5 => exact Nat.le_refl _

theorem parseUnits_length {cs rest : List Char} {units : List ℕ}
    (h : JsonText.parseUnits cs = some (units,rest)) : rest.length < cs.length := by
  fun_induction JsonText.parseUnits cs generalizing units with
  | case1 => cases h
  | case2 cs =>
    cases h
    simp
  | case3 a b c d cs ih =>
    simp only [Option.bind_eq_bind,Option.bind_eq_some_iff,Option.pure_def,Option.some.injEq,
      Prod.mk.injEq] at h
    obtain ⟨_,_,_,_,_,_,_,_,⟨units',rest'⟩,hcs,_,rfl⟩ := h
    have hlt : rest'.length < cs.length := ih hcs
    simp only [List.length_cons]
    omega
  | case4 c cs _ ih =>
    simp only [Option.bind_eq_bind,Option.bind_eq_some_iff,Option.pure_def,Option.some.injEq,
      Prod.mk.injEq] at h
    obtain ⟨_,_,⟨units',rest'⟩,hcs,_,rfl⟩ := h
    have hlt : rest'.length < cs.length := ih hcs
    simp only [List.length_cons]
    omega
  | case5 => cases h
  | case6 c cs _ _ _ _ ih =>
    simp only [Option.bind_eq_bind,Option.bind_eq_some_iff,Option.pure_def,Option.some.injEq,
      Prod.mk.injEq] at h
    obtain ⟨⟨units',rest'⟩,hcs,_,rfl⟩ := h
    have hlt : rest'.length < cs.length := ih hcs
    simp only [List.length_cons]
    omega

theorem lexToken_length {cs rest : List Char} {t : Token} (h : lexToken cs = some (t,rest)) :
    rest.length < cs.length := by
  have hdrop : ∀ (p : Char → Bool) (cs : List Char), (cs.dropWhile p).length ≤ cs.length :=
    fun p cs => (List.dropWhile_suffix p).length_le
  unfold lexToken at h
  split at h
  · cases h
  · next cs =>
    simp only [JsonText.parseString,Option.map_map,Option.map_eq_some_iff,Function.comp_apply,
      Prod.mk.injEq] at h
    obtain ⟨⟨units,rest'⟩,hcs,_,rfl⟩ := h
    have := parseUnits_length hcs
    simp only [List.length_cons]
    omega
  · cases h
    simp only [List.length_cons]
    omega
  · cases h
    simp only [List.length_cons]
    omega
  · cases h
    simp only [List.length_cons]
    omega
  · next c cs _ _ _ _ =>
    have hname := hdrop isNameChar cs
    have hdigit := hdrop Char.isDigit cs
    split_ifs at h <;> cases h <;> simp only [List.length_cons] <;> omega

/-- The text starts with the tokens, and the rest follows them. -/
inductive Lexes : List Char → List Token → List Char → Prop
  | nil (cs : List Char) : Lexes cs [] cs
  | cons {cs mid rest : List Char} {t : Token} {ts : List Token}
      (first : lexToken (skipBlank false cs) = some (t,mid)) (more : Lexes mid ts rest) :
      Lexes cs (t :: ts) rest

theorem Lexes.append {cs mid rest : List Char} {ts ts' : List Token} (h : Lexes cs ts mid)
    (h' : Lexes mid ts' rest) : Lexes cs (ts ++ ts') rest := by
  induction h with
  | nil => exact h'
  | cons first _ ih => exact .cons first (ih h')

theorem Lexes.length {cs rest : List Char} {ts : List Token} (h : Lexes cs ts rest) :
    ts.length + rest.length ≤ cs.length := by
  induction h with
  | nil => simp
  | @cons cs mid rest t ts first _ ih =>
    have hskip := skipBlank_length_le false cs
    have htoken := lexToken_length first
    simp only [List.length_cons]
    omega

theorem Lexes.lex {cs rest : List Char} {ts : List Token} (h : Lexes cs ts rest)
    (hrest : skipBlank false rest = []) {fuel : ℕ} (hfuel : ts.length < fuel) :
    lex fuel cs = some ts := by
  induction h generalizing fuel with
  | nil =>
    obtain ⟨fuel,rfl⟩ : ∃ n, fuel = n + 1 := ⟨fuel - 1,by omega⟩
    simp only [RuleScript.lex,hrest]
  | @cons cs mid rest t ts first _ ih =>
    obtain ⟨fuel,rfl⟩ : ∃ n, fuel = n + 1 := ⟨fuel - 1,by omega⟩
    have hmore : RuleScript.lex fuel mid = some ts := by
      apply ih hrest
      simp only [List.length_cons] at hfuel
      omega
    rw [RuleScript.lex]
    cases hskip : skipBlank false cs with
    | nil => rw [hskip] at first; cases first
    | cons c cs' =>
      rw [hskip] at first
      simp only [first,hmore,Option.bind_eq_bind,Option.bind_some]

/-- The given number of tokens from the start of a text. -/
def lexSome : ℕ → List Char → Option (List Token × List Char)
  | 0,cs => some ([],cs)
  | n + 1,cs => do
      let (t,rest) ← lexToken (skipBlank false cs)
      let (ts,rest) ← lexSome n rest
      some (t :: ts,rest)

theorem lexes_of_lexSome {n : ℕ} {cs rest : List Char} {ts : List Token}
    (h : lexSome n cs = some (ts,rest)) : Lexes cs ts rest := by
  induction n generalizing cs ts with
  | zero =>
    cases h
    exact .nil _
  | succ n ih =>
    simp only [lexSome,Option.bind_eq_bind,Option.bind_eq_some_iff,Option.some.injEq,
      Prod.mk.injEq] at h
    obtain ⟨⟨t,mid⟩,first,⟨ts',rest'⟩,hmore,rfl,rfl⟩ := h
    exact .cons first (ih hmore)

/-- A program in a text is what its tokens are read as. -/
theorem readRule_of_lexes {text rest : List Char} {ts : List Token} (h : Lexes text ts rest)
    (hrest : skipBlank false rest = []) : readRule text = parseRule ts := by
  have hlength := h.length
  rw [readRule,h.lex hrest (by omega),Option.bind_some]

/-! Lines. -/

/-- The line holds the tokens: they come before those of the next lines. -/
def HoldsTokens (line : List Char) (ts : List Token) : Prop :=
  ∀ (rest : List Char) (t : Token) (ts' : List Token) (e : List Char),
    Lexes rest (t :: ts') e → Lexes (line ++ '\n' :: rest) (ts ++ t :: ts') e

/-- A blank before the first token is skipped. -/
theorem Lexes.blank {c : Char} {cs rest : List Char} {t : Token} {ts : List Token}
    (h : Lexes cs (t :: ts) rest) (hc : c = ' ' ∨ c = '\n') : Lexes (c :: cs) (t :: ts) rest := by
  cases h with
  | cons first more => rcases hc with rfl | rfl <;> exact .cons first more

theorem holdsTokens_of_lexes {line : List Char} {ts : List Token}
    (h : ∀ rest, Lexes (line ++ '\n' :: rest) ts ('\n' :: rest)) : HoldsTokens line ts :=
  fun rest _ _ _ hrest => (h rest).append (hrest.blank (.inr rfl))

theorem holdsTokens {line : List Char} {ts : List Token} (n : ℕ)
    (h : ∀ rest, lexSome n (line ++ '\n' :: rest) = some (ts,'\n' :: rest)) :
    HoldsTokens line ts :=
  holdsTokens_of_lexes fun rest => lexes_of_lexSome (h rest)

/-- The characters of a text that is written out. -/
theorem toList_of_eq {s : String} {cs : List Char} (h : s = String.ofList cs) : s.toList = cs := by
  rw [h,String.toList_ofList]

theorem holdsTokens_text {s : String} {cs : List Char} {ts : List Token} (hs : s = String.ofList cs)
    (n : ℕ) (h : ∀ rest, lexSome n (cs ++ '\n' :: rest) = some (ts,'\n' :: rest)) :
    HoldsTokens s.toList ts := by
  rw [toList_of_eq hs]
  exact holdsTokens n h

theorem skipBlank_comment (line rest : List Char) (h : '\n' ∉ line) :
    skipBlank true (line ++ '\n' :: rest) = skipBlank false rest := by
  induction line with
  | nil => rfl
  | cons c line ih =>
    rw [List.mem_cons,not_or] at h
    have hc : (c != '\n') = true := bne_iff_ne.mpr (Ne.symm h.1)
    rw [List.cons_append,skipBlank,hc]
    exact ih h.2

/-- A comment holds no tokens. -/
theorem holdsTokens_comment {line : List Char} (h : '\n' ∉ line) (indent : ℕ) :
    HoldsTokens (List.replicate indent ' ' ++ '/' :: '/' :: line) [] := by
  intro rest t ts' e hrest
  have hskip : skipBlank false (List.replicate indent ' ' ++ '/' :: '/' :: line ++ '\n' :: rest) =
      skipBlank false rest := by
    induction indent with
    | zero => exact skipBlank_comment line rest h
    | succ indent ih => exact ih
  cases hrest with
  | cons first more => exact .cons (by rw [hskip,first]) more

/-- The lines one under the other, before what follows them. -/
def stack (lines : List (List Char)) (rest : List Char) : List Char :=
  lines.foldr (fun line below => line ++ '\n' :: below) rest

theorem lexes_stack {lines : List (List Char)} {tokens : List (List Token)}
    (h : List.Forall₂ HoldsTokens lines tokens) {rest e : List Char} {t : Token} {ts : List Token}
    (hrest : Lexes rest (t :: ts) e) :
    Lexes (stack lines rest) (tokens.flatten ++ t :: ts) e := by
  induction h with
  | nil => exact hrest
  | @cons line these lines tokens hline _ ih =>
    have hne : tokens.flatten ++ t :: ts ≠ [] := by simp
    obtain ⟨t',ts',hts⟩ := List.exists_cons_of_ne_nil hne
    rw [hts] at ih
    rw [List.flatten_cons,List.append_assoc,hts]
    exact hline _ _ _ _ ih

/-! Texts of strings, arrays and tables. -/

section

open JsonText

variable {F : Type} [FloatText F]

theorem lexToken_stringText (ascii : Bool) (s : String) (rest : List Char) :
    lexToken (stringText ascii s ++ rest) = some (.text s,rest) := by
  have htext : stringText ascii s ++ rest =
      '"' :: (s.toList.flatMap (escapeChar ascii) ++ '"' :: rest) := by
    simp [stringText]
  rw [htext,lexToken,parseString_text]
  rfl

theorem lexes_stringText (ascii : Bool) (s : String) (rest : List Char) :
    Lexes (stringText ascii s ++ rest) [.text s] rest := by
  refine .cons ?_ (.nil rest)
  have hskip : skipBlank false (stringText ascii s ++ rest) = stringText ascii s ++ rest := rfl
  rw [hskip,lexToken_stringText]

/-- The tokens of the items after the first, and of the closing bracket. -/
def moreTokens : List String → List Token
  | [] => [.mark "]"]
  | s :: items => .mark "," :: .text s :: moreTokens items

def stringsTokens : List String → List Token
  | [] => [.mark "]"]
  | s :: items => .text s :: moreTokens items

theorem lexes_encodeItems (items : List String) (rest : List Char) :
    Lexes (encodeItems ⟨true,true⟩ (items.map fun s => (.str s : JsonText.Value F)) ++ rest)
      (moreTokens items) rest := by
  induction items with
  | nil => exact lexes_of_lexSome (n := 1) rfl
  | cons s items ih =>
    have htext : encodeItems ⟨true,true⟩ ((s :: items).map fun s => (.str s : JsonText.Value F)) ++ rest =
        ',' :: ' ' :: (stringText true s ++
          (encodeItems ⟨true,true⟩ (items.map fun s => (.str s : JsonText.Value F)) ++ rest)) := by
      simp [encodeItems,encode_str,Layout.separator]
    rw [htext]
    refine .cons (t := .mark ",") rfl ?_
    exact ((lexes_stringText true s _).append ih).blank (.inl rfl)

/-- The text of an array of strings. -/
theorem lexes_strings (items : List String) (rest : List Char) :
    Lexes (encode ⟨true,true⟩ (.arr (items.map fun s => (.str s : JsonText.Value F))) ++ rest)
      (.mark "[" :: stringsTokens items) rest := by
  cases items with
  | nil => exact lexes_of_lexSome (n := 2) rfl
  | cons s items =>
    have htext : encode ⟨true,true⟩ (.arr ((s :: items).map fun s => (.str s : JsonText.Value F))) ++ rest =
        '[' :: (stringText true s ++
          (encodeItems ⟨true,true⟩ (items.map fun s => (.str s : JsonText.Value F)) ++ rest)) := by
      simp [encode_arr_cons,encode_str]
    rw [htext]
    refine .cons (t := .mark "[") rfl ?_
    exact (lexes_stringText true s _).append (lexes_encodeItems items rest)

def fieldTokens (field : String × List String) : List Token :=
  .text field.1 :: .mark ":" :: .mark "[" :: stringsTokens field.2

/-- The tokens of the fields after the first, and of the closing brace. -/
def moreFieldTokens : List (String × List String) → List Token
  | [] => [.mark "\x7d"]
  | field :: fields => .mark "," :: (fieldTokens field ++ moreFieldTokens fields)

def tableTokens : List (String × List String) → List Token
  | [] => [.mark "\x7d"]
  | field :: fields => fieldTokens field ++ moreFieldTokens fields

/-- A table of arrays of strings as a value. -/
def tableValue (fields : List (String × List String)) : JsonText.Value F :=
  .obj (fields.map fun field => (field.1,.arr (field.2.map fun s => .str s)))

theorem lexes_field (field : String × List String) (rest : List Char) :
    Lexes (stringText true field.1 ++ (':' :: ' ' :: (encode ⟨true,true⟩
      (.arr (field.2.map fun s => (.str s : JsonText.Value F))) ++ rest))) (fieldTokens field) rest := by
  refine (lexes_stringText true field.1 _).append (.cons (t := .mark ":") rfl ?_)
  exact (lexes_strings field.2 rest).blank (.inl rfl)

theorem lexes_encodeFields (fields : List (String × List String)) (rest : List Char) :
    Lexes (encodeFields ⟨true,true⟩ (fields.map fun field =>
      (field.1,(.arr (field.2.map fun s => .str s) : JsonText.Value F))) ++ rest)
      (moreFieldTokens fields) rest := by
  induction fields with
  | nil => exact lexes_of_lexSome (n := 1) rfl
  | cons field fields ih =>
    simp only [List.map_cons,encodeFields,Layout.separator,if_true,List.append_assoc,
      List.cons_append,List.nil_append]
    refine .cons (t := .mark ",") rfl ?_
    exact ((lexes_field field _).append ih).blank (.inl rfl)

/-- The text of a table of arrays of strings. -/
theorem lexes_table (fields : List (String × List String)) (rest : List Char) :
    Lexes (encode ⟨true,true⟩ (tableValue fields : JsonText.Value F) ++ rest)
      (.mark "\x7b" :: tableTokens fields) rest := by
  cases fields with
  | nil => exact lexes_of_lexSome (n := 2) rfl
  | cons field fields =>
    simp only [tableValue,List.map_cons,encode_obj_cons,Layout.separator,if_true,List.append_assoc,
      List.cons_append,List.nil_append]
    refine .cons (t := .mark "\x7b") rfl ?_
    exact (lexes_field field _).append (lexes_encodeFields fields rest)

end

/-! Arrays and tables of tokens. -/

theorem parseMore_tokens (items : List String) (ts : List Token) :
    parseMore (moreTokens items ++ ts) = some (items,ts) := by
  induction items with
  | nil => rfl
  | cons s items ih => simp only [moreTokens,List.cons_append,parseMore,ih,Option.map_some]

theorem parseStrings_tokens (items : List String) (ts : List Token) :
    parseStrings (stringsTokens items ++ ts) = some (items,ts) := by
  cases items with
  | nil => rfl
  | cons s items =>
    simp only [stringsTokens,List.cons_append,parseStrings,parseMore_tokens,Option.map_some]

/-- No field of the table sets its prototype. -/
def Plain (fields : List (String × List String)) : Prop := ∀ f ∈ fields, f.1 ≠ "__proto__"

theorem parseField_tokens {field : String × List String} (h : field.1 ≠ "__proto__")
    (ts : List Token) : parseField (fieldTokens field ++ ts) = some (field,ts) := by
  simp only [fieldTokens,List.cons_append,parseField,if_neg h,parseStrings_tokens,Option.map_some]

theorem parseFields_tokens {fields : List (String × List String)} (h : Plain fields)
    (ts : List Token) {fuel : ℕ} (hfuel : fields.length < fuel) :
    parseFields fuel (moreFieldTokens fields ++ ts) = some (fields,ts) := by
  induction fields generalizing fuel with
  | nil =>
    obtain ⟨fuel,rfl⟩ : ∃ n, fuel = n + 1 := ⟨fuel - 1,by omega⟩
    rfl
  | cons field fields ih =>
    obtain ⟨fuel,rfl⟩ : ∃ n, fuel = n + 1 := ⟨fuel - 1,by omega⟩
    have hfield := parseField_tokens (h field (by simp)) (moreFieldTokens fields ++ ts)
    have hmore : parseFields fuel (moreFieldTokens fields ++ ts) = some (fields,ts) :=
      ih (fun f hf => h f (by simp [hf])) (by simp only [List.length_cons] at hfuel; omega)
    simp only [moreFieldTokens,List.cons_append,List.append_assoc,parseFields,hfield,hmore,
      Option.bind_eq_bind,Option.bind_some]

theorem length_moreFieldTokens (fields : List (String × List String)) :
    fields.length ≤ (moreFieldTokens fields).length := by
  induction fields with
  | nil => simp
  | cons field fields ih =>
    simp only [moreFieldTokens,List.length_cons,List.length_append]
    omega

theorem parseTable_tokens {fields : List (String × List String)} (h : Plain fields)
    (ts : List Token) : parseTable (tableTokens fields ++ ts) = some (fields,ts) := by
  cases fields with
  | nil => rfl
  | cons field fields =>
    have hfield := parseField_tokens (h field (by simp)) (moreFieldTokens fields ++ ts)
    have hlength := length_moreFieldTokens fields
    have hmore : parseFields ((moreFieldTokens fields ++ ts).length + 1)
        (moreFieldTokens fields ++ ts) = some (fields,ts) :=
      parseFields_tokens (fun f hf => h f (by simp [hf])) ts
        (by simp only [List.length_append]; omega)
    have htable : tableTokens (field :: fields) ++ ts =
        fieldTokens field ++ (moreFieldTokens fields ++ ts) := by
      simp only [tableTokens,List.append_assoc]
    rw [htable,parseTable.eq_2 _ (by intro ts' h'; cases h')]
    simp only [hfield,hmore,Option.bind_eq_bind,Option.bind_some]

theorem parseAtom_strings (items : List String) (ts : List Token) :
    parseAtom (.mark "[" :: (stringsTokens items ++ ts)) = some (.strings items,ts) := by
  simp only [parseAtom,parseStrings_tokens,Option.map_some]

theorem parseAtom_table {fields : List (String × List String)} (h : Plain fields)
    (ts : List Token) :
    parseAtom (.mark "\x7b" :: (tableTokens fields ++ ts)) = some (.table fields,ts) := by
  simp only [parseAtom,parseTable_tokens h,Option.map_some]

/-- An expression that is one atom, and the mark after it. -/
theorem parseUntil_atom {ts rest : List Token} {t : Term} {m : String} (fuel : ℕ)
    (h : parseAtom ts = some (t,.mark m :: rest)) (hm : m = ";" ∨ m = ")") :
    parseUntil m (fuel + 3) ts = some (.one (.value t),rest) := by
  have hterm : parseTerm (fuel + 2) ts = some (t,.mark m :: rest) := by
    rw [parseTerm,h]
    rcases hm with rfl | rfl <;> rfl
  have hcomparison : parseComparison (fuel + 2) ts = some (.value t,.mark m :: rest) := by
    rw [parseComparison,hterm]
    rcases hm with rfl | rfl <;> rfl
  have hexpr : parseExpr (fuel + 3) ts = some (.one (.value t),.mark m :: rest) := by
    rw [parseExpr,hcomparison]
    rcases hm with rfl | rfl <;> rfl
  rw [parseUntil,hexpr]
  exact if_pos rfl

/-! Blocks, statement by statement. -/

theorem parseBlock_close (fuel : ℕ) (ts : List Token) :
    parseBlock (fuel + 1) (.mark "\x7d" :: ts) = some ([],ts) := by
  rw [parseBlock]

theorem parseRule_block {action subject : String} {ts : List Token} {body : List Stmt}
    (h : parseBlock ts.length ts = some (body,[.mark ")",.mark ";"])) :
    parseRule (.word "polkit" :: .mark "." :: .word "addRule" :: .mark "(" :: .word "function" ::
      .mark "(" :: .word action :: .mark "," :: .word subject :: .mark ")" :: .mark "\x7b" :: ts) =
      some ⟨action,subject,body⟩ := by
  simp only [parseRule,h]

theorem parseBlock_declare {k : ℕ} {l mid rest : List Token} {x : String} {e : Expr}
    {stmts : List Stmt} (h : parseUntil ";" k l = some (e,mid))
    (hmore : parseBlock k mid = some (stmts,rest)) :
    parseBlock (k + 1) (.word "var" :: .word x :: .mark "=" :: l) =
      some (.declare x e :: stmts,rest) := by
  simp only [parseBlock,h,hmore,Option.bind_eq_bind,Option.bind_some]

theorem parseBlock_give {fuel : ℕ} {ts mid rest : List Token} {e : Expr}
    {stmts : List Stmt} (h : parseUntil ";" fuel ts = some (e,mid))
    (hmore : parseBlock fuel mid = some (stmts,rest)) :
    parseBlock (fuel + 1) (.word "return" :: ts) = some (.give e :: stmts,rest) := by
  simp only [parseBlock,h,hmore,Option.bind_eq_bind,Option.bind_some]

theorem parseBlock_when {k : ℕ} {l inner mid rest : List Token} {e : Expr}
    {body stmts : List Stmt} (h : parseUntil ")" k l = some (e,.mark "\x7b" :: inner))
    (hbody : parseBlock k inner = some (body,mid))
    (hmore : parseBlock k mid = some (stmts,rest)) :
    parseBlock (k + 1) (.word "if" :: .mark "(" :: l) = some (.when e body :: stmts,rest) := by
  simp only [parseBlock,h,hbody,hmore,Option.bind_eq_bind,Option.bind_some]

/-! Fields of tables. -/

theorem lookup_eq_some_iff {α β : Type} [DecidableEq α] {l : List (α × β)}
    (h : (l.map Prod.fst).Nodup) (a : α) (b : β) : l.lookup a = some b ↔ (a,b) ∈ l := by
  induction l with
  | nil => simp
  | cons p l ih =>
    rw [List.map_cons,List.nodup_cons] at h
    obtain ⟨k,v⟩ := p
    by_cases hk : a = k
    · subst hk
      have hnot : ∀ w, (a,w) ∉ l := fun w hw => h.1 (List.mem_map.mpr ⟨(a,w),hw,rfl⟩)
      simp only [List.lookup_cons,BEq.rfl,Option.some.injEq,List.mem_cons,Prod.mk.injEq,true_and,
        hnot,or_false]
      exact eq_comm
    · have hbeq : (a == k) = false := by simpa using hk
      simp only [List.lookup_cons,hbeq,ih h.2,List.mem_cons,Prod.mk.injEq,hk,false_and,false_or]

/-- In a table with one field of each name, a field is found by its name. -/
theorem field_eq_strings_iff {fields : List (String × List String)}
    (h : (fields.map Prod.fst).Nodup) (key : String) (items : List String) :
    field fields key = .strings items ↔ (key,items) ∈ fields := by
  have hreverse : (fields.reverse.map Prod.fst).Nodup := by
    rw [List.map_reverse]
    exact List.nodup_reverse.mpr h
  have hlookup := lookup_eq_some_iff hreverse key
  simp only [List.mem_reverse] at hlookup
  rw [← hlookup,field]
  cases fields.reverse.lookup key with
  | none => split_ifs <;> simp
  | some found => simp

/-- What is found in a table. -/
theorem field_cases (fields : List (String × List String)) (key : String) :
    (∃ items, field fields key = .strings items) ∨ field fields key = .inherited ∨
      field fields key = .undefined := by
  unfold field
  split
  · exact .inl ⟨_,rfl⟩
  · split_ifs <;> simp

/-! What statements return. -/

section

variable {r : Request} {env : Env}

/-- The statements return the value. -/
def Returns (r : Request) (env : Env) (stmts : List Stmt) (v : Value) : Prop :=
  ∃ env', execAll r env stmts = some (env',some v)

theorem allows_iff_returns (rule : Rule) (r : Request) :
    rule.Allows r ↔ Returns r
      [(rule.action,.action),(rule.subject,.subject),("polkit",.polkit)] rule.body
      (.result "YES") := by
  unfold Rule.Allows Rule.answer Returns
  cases execAll r [(rule.action,.action),(rule.subject,.subject),("polkit",.polkit)]
      rule.body with
  | none => simp
  | some out =>
    obtain ⟨env',v⟩ := out
    cases v <;> simp

theorem returns_declare {x : String} {t : Term} {v w : Value} (h : t.eval r env = some v)
    (stmts : List Stmt) :
    Returns r env (.declare x (.one (.value t)) :: stmts) w ↔
      Returns r ((x,v) :: env) stmts w := by
  simp only [Returns,execAll,Stmt.exec,Expr.eval,Comparison.eval,h,Option.map_some,
    Option.bind_some]

theorem returns_give {e : Expr} {v w : Value} (h : e.eval r env = some v) (stmts : List Stmt) :
    Returns r env (.give e :: stmts) w ↔ v = w := by
  simp [Returns,execAll,Stmt.exec,h]

/-- The condition throws. -/
theorem returns_throw {e : Expr} {w : Value} (h : e.eval r env = none) (body stmts : List Stmt) :
    ¬Returns r env (.when e body :: stmts) w := by
  simp [Returns,execAll,Stmt.exec,h]

theorem returns_skip {e : Expr} {v w : Value} (h : e.eval r env = some v)
    (hv : v.truthy = false) (body stmts : List Stmt) :
    Returns r env (.when e body :: stmts) w ↔ Returns r env stmts w := by
  simp [Returns,execAll,Stmt.exec,h,hv]

/-- Statements that end with a return never go on. -/
theorem execAll_ends (e : Expr) (stmts : List Stmt) (env env' : Env) :
    execAll r env (stmts ++ [Stmt.give e]) ≠ some (env',none) := by
  induction stmts generalizing env with
  | nil => cases h : e.eval r env <;> simp [execAll,Stmt.exec,h]
  | cons stmt stmts ih =>
    rw [List.cons_append,execAll]
    cases stmt.exec r env with
    | none => simp
    | some out =>
      obtain ⟨mid,v⟩ := out
      cases v with
      | none => exact ih mid
      | some v => simp

theorem returns_enter {e d : Expr} {v w : Value} (h : e.eval r env = some v)
    (hv : v.truthy = true) (body stmts : List Stmt) :
    Returns r env (.when e (body ++ [Stmt.give d]) :: stmts) w ↔
      Returns r env (body ++ [Stmt.give d]) w := by
  have hends := execAll_ends (r := r) d body env
  simp only [Returns,execAll,Stmt.exec,h,Option.bind_some,hv,if_true]
  cases hbody : execAll r env (body ++ [Stmt.give d]) with
  | none => simp
  | some out =>
    obtain ⟨env',v'⟩ := out
    cases v' with
    | none => exact absurd hbody (hends env')
    | some v' => simp

end

end RuleScript
