import Atlas.Lib.JsonText
import Mathlib.Tactic.IntervalCases

/-! The reader of JSON texts gives back every value whose objects have no key twice. -/
namespace JsonText

/-! Strings. -/

theorem hexValue_hexDigit {n : ℕ} (h : n < 16) : hexValue (hexDigit n) = some n := by
  revert n
  decide

/-- The codes that the text of a character reads as. -/
def unitsOf (ascii : Bool) (c : Char) : List ℕ :=
  if ascii = true ∧ 65536 ≤ c.toNat then [highSurrogate c.toNat,lowSurrogate c.toNat] else [c.toNat]

theorem parseUnits_unicodeEscape {n : ℕ} (h : n < 65536) (rest : List Char) :
    parseUnits (unicodeEscape n ++ rest) =
      (parseUnits rest).map fun (units,rest) => (n :: units,rest) := by
  have hvalue : ((n / 4096 % 16 * 16 + n / 256 % 16) * 16 + n / 16 % 16) * 16 + n % 16 = n := by
    omega
  simp only [unicodeEscape,List.cons_append,List.nil_append,parseUnits]
  rw [hexValue_hexDigit (by omega),hexValue_hexDigit (by omega),hexValue_hexDigit (by omega),
    hexValue_hexDigit (by omega)]
  simp only [Option.bind_eq_bind,Option.bind_some,hvalue]
  cases parseUnits rest with
  | none => rfl
  | some p => rfl

theorem parseUnits_short {c : Char} {n : ℕ} (h : shortEscape c = some n) (rest : List Char) :
    parseUnits ('\\' :: c :: rest) = (parseUnits rest).map fun (units,rest) => (n :: units,rest) := by
  have hu : c ≠ 'u' := by
    rintro rfl
    cases h
  rw [parseUnits.eq_4]
  · rw [h]
    cases parseUnits rest with
    | none => rfl
    | some p => rfl
  · intro a b c' d cs hc
    exact absurd hc hu

theorem char_toNat_lt (c : Char) : c.toNat < 1114112 ∧ ¬(55296 ≤ c.toNat ∧ c.toNat ≤ 57343) := by
  have hvalid := c.valid
  have hn : c.toNat = c.val.toNat := rfl
  rw [hn]
  rcases hvalid with h | ⟨h,h'⟩
  · have : c.val.toNat < 55296 := h
    omega
  · have h : 57343 < c.val.toNat := h
    have h' : c.val.toNat < 1114112 := h'
    omega

/-- The text of a character reads as its codes. -/
theorem parseUnits_escapeChar (ascii : Bool) (c : Char) (rest : List Char) :
    parseUnits (escapeChar ascii c ++ rest) =
      (parseUnits rest).map fun (units,rest) => (unitsOf ascii c ++ units,rest) := by
  have hone : ∀ n : ℕ, n < 65536 → c.toNat = n → unitsOf ascii c = [n] := by
    intro n hn hc
    rw [unitsOf,if_neg (by omega),hc]
  rw [escapeChar]
  by_cases hquote : c = '"'
  · rw [if_pos hquote,hone 34 (by decide) (by rw [hquote]; rfl)]; exact parseUnits_short rfl rest
  rw [if_neg hquote]
  by_cases hback : c = '\\'
  · rw [if_pos hback,hone 92 (by decide) (by rw [hback]; rfl)]; exact parseUnits_short rfl rest
  rw [if_neg hback]
  by_cases h : c.toNat = 8
  · rw [if_pos h,hone 8 (by decide) h]; exact parseUnits_short rfl rest
  rw [if_neg h]
  by_cases h : c.toNat = 9
  · rw [if_pos h,hone 9 (by decide) h]; exact parseUnits_short rfl rest
  rw [if_neg h]
  by_cases h : c.toNat = 10
  · rw [if_pos h,hone 10 (by decide) h]; exact parseUnits_short rfl rest
  rw [if_neg h]
  by_cases h : c.toNat = 12
  · rw [if_pos h,hone 12 (by decide) h]; exact parseUnits_short rfl rest
  rw [if_neg h]
  by_cases h : c.toNat = 13
  · rw [if_pos h,hone 13 (by decide) h]; exact parseUnits_short rfl rest
  rw [if_neg h]
  by_cases hcontrol : c.toNat < 32
  · rw [if_pos hcontrol,hone c.toNat (by omega) rfl]
    exact parseUnits_unicodeEscape (by omega) rest
  rw [if_neg hcontrol]
  split
  · next hascii =>
    split
    · next h =>
      rw [hone c.toNat h rfl]
      exact parseUnits_unicodeEscape h rest
    · next h =>
      have hlt := (char_toNat_lt c).1
      rw [unitsOf,if_pos ⟨hascii.1,by omega⟩,List.append_assoc,
        parseUnits_unicodeEscape (by rw [highSurrogate]; omega),
        parseUnits_unicodeEscape (by rw [lowSurrogate]; omega)]
      cases parseUnits rest with
      | none => rfl
      | some p => rfl
  · next hascii =>
    have hunits : unitsOf ascii c = [c.toNat] := by
      rw [unitsOf,if_neg]
      rintro ⟨ha,hc⟩
      exact hascii ⟨ha,by omega⟩
    rw [hunits,List.singleton_append,parseUnits.eq_5]
    · rw [if_neg (by rintro (h | h); exacts [hback h,hcontrol h])]
      cases parseUnits rest with
      | none => rfl
      | some p => rfl
    · exact fun h => absurd h hquote
    · intro a b c' d cs h
      exact absurd h hback
    · intro c' cs h
      exact absurd h hback

theorem parseUnits_text (ascii : Bool) (cs rest : List Char) :
    parseUnits (cs.flatMap (escapeChar ascii) ++ '"' :: rest) =
      some (cs.flatMap (unitsOf ascii),rest) := by
  induction cs with
  | nil => rfl
  | cons c cs ih =>
    rw [List.flatMap_cons,List.append_assoc,parseUnits_escapeChar,ih,List.flatMap_cons]
    rfl

theorem charOf_toNat (c : Char) : charOf c.toNat = c := by
  have hvalid : c.toNat.isValidChar := c.valid
  rw [charOf,if_pos hvalid,Char.ofNat_toNat]

theorem joinUnits_cons {n : ℕ} (h : isHigh n = false) (units : List ℕ) :
    joinUnits (n :: units) = charOf n :: joinUnits units := by
  cases units with
  | nil => rfl
  | cons u units => rw [joinUnits,h,Bool.false_and,if_neg Bool.false_ne_true]

theorem joinUnits_unitsOf (ascii : Bool) (c : Char) (units : List ℕ) :
    joinUnits (unitsOf ascii c ++ units) = c :: joinUnits units := by
  obtain ⟨hlt,hnot⟩ := char_toNat_lt c
  rw [unitsOf]
  split
  · next h =>
    have hhigh : isHigh (highSurrogate c.toNat) = true := by
      rw [isHigh,decide_eq_true_eq,highSurrogate]
      omega
    have hlow : isLow (lowSurrogate c.toNat) = true := by
      rw [isLow,decide_eq_true_eq,lowSurrogate]
      omega
    have hcode : 65536 + (highSurrogate c.toNat - 55296) * 1024 + (lowSurrogate c.toNat - 56320) =
        c.toNat := by
      rw [highSurrogate,lowSurrogate]
      omega
    rw [List.cons_append,List.cons_append,List.nil_append,joinUnits,hhigh,hlow,Bool.and_self,
      if_pos rfl,hcode,charOf_toNat]
  · have hlow : isHigh c.toNat = false := by
      rw [isHigh,decide_eq_false_iff_not]
      omega
    rw [List.singleton_append,joinUnits_cons hlow,charOf_toNat]

/-- The text of a string reads as the string. -/
theorem parseString_text (ascii : Bool) (s : String) (rest : List Char) :
    parseString (s.toList.flatMap (escapeChar ascii) ++ '"' :: rest) = some (s,rest) := by
  have hjoin : ∀ cs : List Char, joinUnits (cs.flatMap (unitsOf ascii)) = cs := by
    intro cs
    induction cs with
    | nil => rfl
    | cons c cs ih => rw [List.flatMap_cons,joinUnits_unitsOf,ih]
  rw [parseString,parseUnits_text,Option.map_some]
  simp only [hjoin,String.ofList_toList]

/-! Numbers. -/

/-- What follows digits begins with none. -/
def NoDigit (rest : List Char) : Prop := ∀ c ∈ rest.head?, c.isDigit = false

theorem digits_append {ds rest : List Char} (hds : ∀ c ∈ ds, c.isDigit = true)
    (hrest : NoDigit rest) : (ds ++ rest).takeWhile Char.isDigit = ds ∧
      (ds ++ rest).dropWhile Char.isDigit = rest := by
  have hnone : rest.takeWhile Char.isDigit = [] ∧ rest.dropWhile Char.isDigit = rest := by
    cases rest with
    | nil => exact ⟨rfl,rfl⟩
    | cons c rest =>
      have hc := hrest c rfl
      exact ⟨List.takeWhile_cons_of_neg (by rw [hc]; decide),
        List.dropWhile_cons_of_neg (by rw [hc]; decide)⟩
  rw [List.takeWhile_append_of_pos hds,List.dropWhile_append_of_pos hds,hnone.1,hnone.2,
    List.append_nil]
  exact ⟨rfl,rfl⟩

/-- What may follow a number: nothing that would lengthen it. -/
def EndsNumber (rest : List Char) : Prop :=
  ∀ c ∈ rest.head?, c.isDigit = false ∧ c ≠ '.' ∧ c ≠ 'e' ∧ c ≠ 'E'

theorem EndsNumber.noDigit {rest : List Char} (h : EndsNumber rest) : NoDigit rest :=
  fun c hc => (h c hc).1

theorem isWhole_digits {whole : List Char} (h : IsWhole whole) :
    whole ≠ [] ∧ ∀ c ∈ whole, c.isDigit = true := by
  match whole,h with
  | d :: ds,h =>
    by_cases hd : d = '0'
    · subst hd
      obtain rfl : ds = [] := h
      exact ⟨List.cons_ne_nil _ _,fun c hc => by rw [List.mem_singleton.mp hc]; rfl⟩
    · rw [IsWhole] at h
      · refine ⟨List.cons_ne_nil _ _,fun c hc => ?_⟩
        rcases List.mem_cons.mp hc with rfl | hc
        · exact h.1
        · exact h.2 c hc
      · exact hd

theorem scanWhole_append {whole rest : List Char} (h : IsWhole whole) (hrest : NoDigit rest) :
    scanWhole (whole ++ rest) = some (whole,rest) := by
  obtain ⟨_,hdigits⟩ := isWhole_digits h
  match whole,h with
  | d :: ds,h =>
    by_cases hd : d = '0'
    · subst hd
      obtain rfl : ds = [] := h
      rfl
    · have hsplit := digits_append hdigits hrest
      rw [List.cons_append] at hsplit ⊢
      rw [scanWhole,if_pos (hdigits d List.mem_cons_self),hsplit.1,hsplit.2]
      exact fun he => absurd he hd

theorem scanSigned_append (negative : Bool) {whole rest : List Char} (h : IsWhole whole)
    (hrest : NoDigit rest) :
    scanSigned ((if negative then ['-'] else []) ++ whole ++ rest) =
      some ((if negative then ['-'] else []) ++ whole,rest) := by
  cases negative with
  | true =>
    simp only [if_true,List.cons_append,List.nil_append,scanSigned,scanWhole_append h hrest,
      Option.map_some]
  | false =>
    obtain ⟨hne,hdigits⟩ := isWhole_digits h
    match whole,h,hne,hdigits with
    | d :: ds,h,_,hdigits =>
      have hd : d ≠ '-' := by
        rintro rfl
        exact absurd (hdigits '-' List.mem_cons_self) (by decide)
      have hwhole := scanWhole_append h hrest
      simp only [Bool.false_eq_true,if_false,List.nil_append]
      rw [List.cons_append] at hwhole ⊢
      rw [scanSigned,hwhole]
      exact fun cs he => hd (List.cons.inj he).1

theorem scanDigits_append {m ds rest t : List Char} (h : IsDigits ds)
    (hrest : NoDigit rest) : scanDigits m (ds ++ rest) t = (m ++ ds,rest) := by
  have hsplit := digits_append h.2 hrest
  rw [scanDigits,hsplit.1,hsplit.2]
  match ds,h.1 with
  | d :: ds,_ => rfl

theorem scanFraction_append {fraction rest : List Char}
    (h : IsFraction fraction) (hrest : NoDigit rest)
    (hpoint : ∀ c ∈ rest.head?, c ≠ '.') : scanFraction (fraction ++ rest) = (fraction,rest) := by
  rcases h with rfl | ⟨ds,rfl,hds⟩
  · cases rest with
    | nil => rfl
    | cons c rest =>
      rw [List.nil_append,scanFraction]
      rintro cs he
      exact hpoint c rfl (List.cons.inj he).1
  · rw [List.cons_append,scanFraction,scanDigits_append hds hrest,List.singleton_append]

theorem scanExponent_append {exponent rest : List Char} (h : IsExponent exponent)
    (hrest : EndsNumber rest) : scanExponent (exponent ++ rest) = (exponent,rest) := by
  rcases h with rfl | ⟨e,sign,ds,rfl,he,hsign,hds⟩
  · cases rest with
    | nil => rfl
    | cons c rest =>
      have hc : ¬(c = 'e' ∨ c = 'E') := by
        obtain ⟨_,_,hlower,hupper⟩ := hrest c rfl
        exact fun h => h.elim hlower hupper
      rw [List.nil_append]
      cases rest with
      | nil => rw [scanExponent,if_neg hc] <;> simp
      | cons c' rest =>
        by_cases hplus : c' = '+'
        · subst hplus
          rw [scanExponent,if_neg hc]
        · by_cases hminus : c' = '-'
          · subst hminus
            rw [scanExponent,if_neg hc]
          · rw [scanExponent,if_neg hc]
            · exact fun cs h => hplus (List.cons.inj h).1
            · exact fun cs h => hminus (List.cons.inj h).1
  · have hend := hrest.noDigit
    rcases hsign with rfl | rfl | rfl
    · obtain ⟨hne,hdigits⟩ := hds
      match ds,hne,hdigits with
      | d :: ds,hne,hdigits =>
        have hd := hdigits d List.mem_cons_self
        have hscan := scanDigits_append (m := [e]) (t := e :: (d :: ds ++ rest))
          ⟨hne,hdigits⟩ hend
        rw [List.nil_append,List.cons_append,List.cons_append,scanExponent,if_pos he]
        · exact hscan
        · rintro cs h
          rw [(List.cons.inj h).1] at hd
          exact absurd hd (by decide)
        · rintro cs h
          rw [(List.cons.inj h).1] at hd
          exact absurd hd (by decide)
    · rw [List.cons_append,List.append_assoc,List.singleton_append,scanExponent,if_pos he,
        scanDigits_append hds hend]
      rfl
    · rw [List.cons_append,List.append_assoc,List.singleton_append,scanExponent,if_pos he,
        scanDigits_append hds hend]
      rfl

section

variable {F : Type} [FloatText F]

/-- The reading of the text of a number gives its parts. -/
theorem parseNumber_append (negative : Bool) {whole fraction exponent rest : List Char}
    (hwhole : IsWhole whole) (hfraction : IsFraction fraction) (hexponent : IsExponent exponent)
    (hrest : EndsNumber rest) :
    (parseNumber ((if negative then ['-'] else []) ++ whole ++ (fraction ++ (exponent ++ rest))) :
      Option (Value F × List Char)) =
      some (if fraction = [] ∧ exponent = [] then
        (.int (readInt ((if negative then ['-'] else []) ++ whole)),rest)
      else (.float (FloatText.read
        ((if negative then ['-'] else []) ++ whole ++ fraction ++ exponent)),rest)) := by
  have hexp : NoDigit (exponent ++ rest) ∧ ∀ c ∈ (exponent ++ rest).head?, c ≠ '.' := by
    rcases hexponent with rfl | ⟨e,sign,ds,rfl,he,_,_⟩
    · exact ⟨hrest.noDigit,fun c hc => (hrest c hc).2.1⟩
    · refine ⟨fun c hc => ?_,fun c hc => ?_⟩
      · obtain rfl := Option.some.inj hc
        rcases he with rfl | rfl <;> rfl
      · obtain rfl := Option.some.inj hc
        rcases he with rfl | rfl <;> decide
  have hfrac : NoDigit (fraction ++ (exponent ++ rest)) := by
    rcases hfraction with rfl | ⟨ds,rfl,_⟩
    · exact hexp.1
    · intro c hc
      obtain rfl := Option.some.inj hc
      rfl
  rw [parseNumber,scanSigned_append negative hwhole hfrac]
  simp only [Option.map_some,scanFraction_append hfraction hexp.1 hexp.2,
    scanExponent_append hexponent hrest]

theorem parseNumber_repr (f : F) {rest : List Char} (hrest : EndsNumber rest) :
    parseNumber (FloatText.repr f ++ rest) = some (.float f,rest) := by
  obtain ⟨negative,whole,fraction,exponent,htext,hwhole,hfraction,hexponent,hne⟩ :=
    FloatText.isFloat_repr f
  have hparts := parseNumber_append (F := F) negative hwhole hfraction hexponent hrest
  have hpart : ¬(fraction = [] ∧ exponent = []) := fun h => hne.elim (· h.1) (· h.2)
  rw [← htext,FloatText.read_repr,if_neg hpart] at hparts
  rw [← hparts,htext,List.append_assoc,List.append_assoc]

theorem isWhole_toDigits (n : ℕ) : IsWhole (Nat.toDigits 10 n) := by
  induction n using Nat.strong_induction_on with
  | _ n ih =>
    by_cases hsmall : n < 10
    · rw [Nat.toDigits_of_lt_base hsmall]
      interval_cases n <;> simp [IsWhole,Nat.digitChar]
    · rw [Nat.toDigits_of_base_le (by decide) (by omega)]
      have hrest := ih (n / 10) (by omega)
      have hlast : (Nat.digitChar (n % 10)).isDigit = true := by
        have hlt : n % 10 < 10 := Nat.mod_lt n (by decide)
        generalize n % 10 = m at hlt
        interval_cases m <;> rfl
      have hpos : Nat.toDigits 10 (n / 10) ≠ ['0'] := by
        intro h
        have hvalue := congrArg (Nat.ofDigitChars 10 · 0) h
        simp only [Nat.ofDigitChars_ten_toDigits] at hvalue
        have hzero : Nat.ofDigitChars 10 ['0'] 0 = 0 := rfl
        omega
      generalize Nat.toDigits 10 (n / 10) = ds at hrest hpos
      match ds,hrest,hpos with
      | d :: ds,hrest,hpos =>
        by_cases hd : d = '0'
        · subst hd
          obtain rfl : ds = [] := hrest
          exact absurd rfl hpos
        · rw [IsWhole] at hrest
          · rw [List.cons_append,IsWhole]
            · refine ⟨hrest.1,fun c hc => ?_⟩
              rcases List.mem_append.mp hc with hc | hc
              · exact hrest.2 c hc
              · rw [List.mem_singleton.mp hc]
                exact hlast
            · exact hd
          · exact hd

theorem parseNumber_intText (n : ℤ) {rest : List Char} (hrest : EndsNumber rest) :
    (parseNumber (intText n ++ rest) : Option (Value F × List Char)) = some (.int n,rest) := by
  have hparts := parseNumber_append (F := F) (decide (n < 0)) (isWhole_toDigits n.natAbs) (.inl rfl)
    (.inl rfl) hrest
  have hread : readInt (intText n) = n := by
    have hvalue : Nat.ofDigitChars 10 (Nat.toDigits 10 n.natAbs) 0 = n.natAbs :=
      Nat.ofDigitChars_ten_toDigits
    rw [intText]
    by_cases hn : n < 0
    · rw [if_pos hn,List.singleton_append,readInt,hvalue]
      omega
    · rw [if_neg hn,List.nil_append]
      have hwhole := isWhole_digits (isWhole_toDigits n.natAbs)
      rw [readInt]
      · rw [hvalue]
        omega
      · intro ds hds
        have hminus := hwhole.2 '-' (by rw [hds]; exact List.mem_cons_self)
        exact absurd hminus (by decide)
  simp only [decide_eq_true_eq,List.nil_append,and_self,if_true] at hparts
  rw [intText] at hread
  rw [hread] at hparts
  rw [intText]
  exact hparts

/-! Values. -/

mutual

/-- No object within a value has a key twice. -/
def Value.Plain : Value F → Prop
  | .arr items => PlainItems items
  | .obj fields => (fields.map Prod.fst).Nodup ∧ PlainFields fields
  | _ => True

def PlainItems : List (Value F) → Prop
  | [] => True
  | item :: items => item.Plain ∧ PlainItems items

def PlainFields : List (String × Value F) → Prop
  | [] => True
  | (_,value) :: fields => value.Plain ∧ PlainFields fields

end

omit [FloatText F] in
/-- Pairs without a key twice are their own dictionary. -/
theorem dictOf_of_nodup {pairs : List (String × Value F)} (h : (pairs.map Prod.fst).Nodup) :
    dictOf pairs = pairs := by
  have hput : ∀ (d : List (String × Value F)) (pair : String × Value F), pair.1 ∉ d.map Prod.fst →
      putPair d pair = d ++ [pair] := by
    intro d pair hnot
    induction d with
    | nil => rfl
    | cons p d ih =>
      rw [List.map_cons,List.mem_cons,not_or] at hnot
      rw [putPair,if_neg (Ne.symm hnot.1),ih hnot.2,List.cons_append]
  have hfold : ∀ (pairs d : List (String × Value F)), ((d ++ pairs).map Prod.fst).Nodup →
      pairs.foldl putPair d = d ++ pairs := by
    intro pairs
    induction pairs with
    | nil => exact fun d _ => (List.append_nil d).symm
    | cons pair pairs ih =>
      intro d hd
      have hnot : pair.1 ∉ d.map Prod.fst := by
        rw [List.map_append,List.nodup_append] at hd
        exact fun hin => hd.2.2 _ hin _ List.mem_cons_self rfl
      rw [List.foldl_cons,hput d pair hnot,ih _ (by rwa [List.append_assoc]),List.append_assoc]
      rfl
  exact hfold pairs [] h

/-- The first character of the text of a value. -/
def Starts (text : List Char) : Prop :=
  ∃ c cs, text = c :: cs ∧ isBlank c = false ∧ c ≠ ']' ∧ c ≠ '\x7d'

theorem Starts.skipBlank {text : List Char} (h : Starts text) (rest : List Char) :
    skipBlank (text ++ rest) = text ++ rest := by
  obtain ⟨c,cs,rfl,hc,_⟩ := h
  exact List.dropWhile_cons_of_neg (by rw [hc]; decide)

theorem digit_starts {c : Char} (h : c.isDigit = true) :
    isBlank c = false ∧ c ≠ ']' ∧ c ≠ '\x7d' ∧ c ≠ '"' ∧ c ≠ '[' ∧ c ≠ '\x7b' ∧ c ≠ 'n' ∧ c ≠ 't' ∧
      c ≠ 'f' := by
  refine ⟨?_,?_,?_,?_,?_,?_,?_,?_,?_⟩
  · rw [isBlank,← Bool.not_eq_true]
    intro hb
    simp only [Bool.or_eq_true,beq_iff_eq] at hb
    rcases hb with ((rfl | rfl) | rfl) | rfl <;> exact absurd h (by decide)
  all_goals
    rintro rfl
    exact absurd h (by decide)

/-- The text of a number begins with a digit or a minus. -/
def StartsNumber (text : List Char) : Prop :=
  ∃ c cs, text = c :: cs ∧ (c.isDigit = true ∨ c = '-')

theorem startsNumber_signed (negative : Bool) {whole : List Char} (h : IsWhole whole)
    (rest : List Char) : StartsNumber ((if negative then ['-'] else []) ++ whole ++ rest) := by
  cases negative with
  | true => exact ⟨_,_,rfl,.inr rfl⟩
  | false =>
    obtain ⟨hne,hdigits⟩ := isWhole_digits h
    match whole,hne,hdigits with
    | d :: ds,_,hdigits => exact ⟨d,ds ++ rest,rfl,.inl (hdigits d List.mem_cons_self)⟩

theorem startsNumber_intText (n : ℤ) : StartsNumber (intText n) := by
  have h := startsNumber_signed (decide (n < 0)) (isWhole_toDigits n.natAbs) []
  rw [intText]
  simpa only [decide_eq_true_eq,List.append_nil] using h

theorem startsNumber_repr (f : F) : StartsNumber (FloatText.repr f) := by
  obtain ⟨negative,whole,fraction,exponent,htext,hwhole,_⟩ := FloatText.isFloat_repr f
  rw [htext,List.append_assoc]
  exact startsNumber_signed negative hwhole _

theorem StartsNumber.starts {text : List Char} (h : StartsNumber text) : Starts text := by
  obtain ⟨c,cs,rfl,hc | rfl⟩ := h
  · obtain ⟨hblank,hbracket,hbrace,_⟩ := digit_starts hc
    exact ⟨c,cs,rfl,hblank,hbracket,hbrace⟩
  · exact ⟨_,cs,rfl,by decide,by decide,by decide⟩

/-- A text that begins as a number does is read as one. -/
theorem parseValue_number {text rest : List Char} (h : StartsNumber text) {v : Value F}
    (hparse : parseNumber (text ++ rest) = some (v,rest)) (fuel : ℕ) :
    parseValue (fuel + 1) (text ++ rest) = some (v,rest) := by
  obtain ⟨c,cs,rfl,hc⟩ := h
  have hnot : c ≠ '"' ∧ c ≠ '[' ∧ c ≠ '\x7b' ∧ c ≠ 'n' ∧ c ≠ 't' ∧ c ≠ 'f' := by
    rcases hc with hc | rfl
    · obtain ⟨_,_,_,hq,hb,ho,hn,ht,hf⟩ := digit_starts hc
      exact ⟨hq,hb,ho,hn,ht,hf⟩
    · decide
  obtain ⟨hq,hb,ho,hn,ht,hf⟩ := hnot
  have hword : ∀ (d : Char) (ds : List Char), c ≠ d → afterWord (d :: ds) (c :: (cs ++ rest)) = none := by
    intro d ds hd
    rw [afterWord,if_neg]
    rw [List.isPrefixOf_cons_cons]
    simp [Ne.symm hd]
  rw [List.cons_append] at hparse ⊢
  rw [parseValue]
  · rw [parseWord,hparse]
    rw [show "null".toList = 'n' :: "ull".toList from rfl,show "true".toList = 't' :: "rue".toList from rfl,
      show "false".toList = 'f' :: "alse".toList from rfl,hword _ _ hn,hword _ _ ht,hword _ _ hf]
    rfl
  · exact fun cs' he => hq (List.cons.inj he).1
  · exact fun cs' he => hb (List.cons.inj he).1
  · exact fun cs' he => ho (List.cons.inj he).1

theorem starts_encode (l : Layout) (v : Value F) : Starts (encode l v) := by
  match v with
  | .null => exact ⟨_,_,rfl,by decide,by decide,by decide⟩
  | .bool true => exact ⟨_,_,rfl,by decide,by decide,by decide⟩
  | .bool false => exact ⟨_,_,rfl,by decide,by decide,by decide⟩
  | .int n => exact (startsNumber_intText n).starts
  | .float f => exact (startsNumber_repr f).starts
  | .constant .nan => exact ⟨_,_,rfl,by decide,by decide,by decide⟩
  | .constant .infinity => exact ⟨_,_,rfl,by decide,by decide,by decide⟩
  | .constant .negInfinity => exact ⟨_,_,rfl,by decide,by decide,by decide⟩
  | .str s => exact ⟨_,_,rfl,by decide,by decide,by decide⟩
  | .arr [] => exact ⟨_,_,rfl,by decide,by decide,by decide⟩
  | .arr (item :: items) => exact ⟨_,_,rfl,by decide,by decide,by decide⟩
  | .obj [] => exact ⟨_,_,rfl,by decide,by decide,by decide⟩
  | .obj ((key,value) :: fields) => exact ⟨_,_,rfl,by decide,by decide,by decide⟩

theorem encode_pos (l : Layout) (v : Value F) : 0 < (encode l v).length := by
  obtain ⟨c,cs,h,_⟩ := starts_encode l v
  rw [h]
  exact Nat.succ_pos _

/-- A separator, and that reading goes on behind it at the next part. -/
theorem separator_skip (l : Layout) (c : Char) {text : List Char} (h : Starts text)
    (rest : List Char) : ∃ tail, l.separator c ++ (text ++ rest) = c :: tail ∧
      skipBlank tail = text ++ rest := by
  obtain ⟨spaced,hspaced⟩ : ∃ b, l.spaced = b := ⟨_,rfl⟩
  rw [Layout.separator,hspaced]
  cases spaced with
  | true => exact ⟨' ' :: (text ++ rest),rfl,h.skipBlank rest⟩
  | false => exact ⟨text ++ rest,rfl,h.skipBlank rest⟩

theorem separator_pos (l : Layout) (c : Char) : 0 < (l.separator c).length := by
  rw [Layout.separator]
  split <;> exact Nat.succ_pos _

/-- What follows a first item: the closing bracket, or a comma and more. -/
theorem encodeItems_skip (l : Layout) (items : List (Value F)) (rest : List Char) :
    EndsNumber (encodeItems l items ++ rest) ∧
      skipBlank (encodeItems l items ++ rest) = encodeItems l items ++ rest := by
  cases items with
  | nil =>
    refine ⟨fun c hc => ?_,rfl⟩
    obtain rfl := Option.some.inj hc
    decide
  | cons item items =>
    obtain ⟨tail,htail,_⟩ := separator_skip l ',' (starts_encode l item) (encodeItems l items ++ rest)
    rw [encodeItems,List.append_assoc,List.append_assoc,htail]
    refine ⟨fun c hc => ?_,rfl⟩
    obtain rfl := Option.some.inj hc
    decide

theorem encodeFields_skip (l : Layout) (fields : List (String × Value F)) (rest : List Char) :
    EndsNumber (encodeFields l fields ++ rest) ∧
      skipBlank (encodeFields l fields ++ rest) = encodeFields l fields ++ rest := by
  cases fields with
  | nil =>
    refine ⟨fun c hc => ?_,rfl⟩
    obtain rfl := Option.some.inj hc
    decide
  | cons field fields =>
    obtain ⟨key,value⟩ := field
    have hkey : Starts (stringText l.ascii key) := ⟨_,_,rfl,by decide,by decide,by decide⟩
    obtain ⟨tail,htail,_⟩ := separator_skip l ',' hkey
      (l.separator ':' ++ (encode l value ++ (encodeFields l fields ++ rest)))
    rw [encodeFields,List.append_assoc,List.append_assoc,List.append_assoc,List.append_assoc,htail]
    refine ⟨fun c hc => ?_,rfl⟩
    obtain rfl := Option.some.inj hc
    decide

/-- Reading of a value, wherever its text stands. -/
def ReadsAs (l : Layout) (v : Value F) : Prop :=
  ∀ fuel rest, 2 * (encode l v).length ≤ fuel → EndsNumber rest →
    parseValue fuel (encode l v ++ rest) = some (v,rest)

/-- A key, its colon and where its value begins. -/
theorem parseString_key (l : Layout) (key : String) (value : Value F) (rest : List Char) :
    ∃ tail after, stringText l.ascii key ++ l.separator ':' ++ encode l value ++ rest = '"' :: tail ∧
      parseString tail = some (key,':' :: after) ∧ skipBlank after = encode l value ++ rest := by
  obtain ⟨after,hafter,hskip⟩ := separator_skip l ':' (starts_encode l value) rest
  refine ⟨key.toList.flatMap (escapeChar l.ascii) ++ '"' :: ':' :: after,after,?_,
    parseString_text l.ascii key _,hskip⟩
  rw [← hafter]
  simp [stringText]

theorem skipBlank_colon (rest : List Char) : skipBlank (':' :: rest) = ':' :: rest := rfl

mutual

theorem readsAs (l : Layout) : ∀ v : Value F, v.Plain → ReadsAs l v
  | .null,_,fuel + 1,rest,_,_ => rfl
  | .bool true,_,fuel + 1,rest,_,_ => rfl
  | .bool false,_,fuel + 1,rest,_,_ => rfl
  | .int n,_,fuel + 1,rest,_,hrest =>
      parseValue_number (startsNumber_intText n) (parseNumber_intText n hrest) fuel
  | .float f,_,fuel + 1,rest,_,hrest =>
      parseValue_number (startsNumber_repr f) (parseNumber_repr f hrest) fuel
  | .constant .nan,_,fuel + 1,rest,_,_ => rfl
  | .constant .infinity,_,fuel + 1,rest,_,_ => rfl
  | .constant .negInfinity,_,fuel + 1,rest,_,_ => rfl
  | .str s,_,fuel + 1,rest,_,_ => by
      have hstring := parseString_text l.ascii s rest
      rw [encode_str,stringText,List.cons_append,parseValue,List.append_assoc,
        List.singleton_append,hstring]
      rfl
  | .arr [],_,fuel + 1,rest,_,_ => rfl
  | .arr (item :: items),h,fuel + 1,rest,hfuel,_ => by
      have hitems := parseItems_encode l items h.2 item (readsAs l item h.1) fuel rest (by
        rw [encode_arr_cons,List.length_cons] at hfuel
        omega)
      have hskip := (starts_encode l item).skipBlank (encodeItems l items ++ rest)
      obtain ⟨c,cs,hc,_,hbracket,_⟩ := starts_encode l item
      rw [← List.append_assoc] at hskip
      rw [encode_arr_cons,List.cons_append,parseValue,hskip]
      split
      · next he =>
        rw [hc] at he
        exact absurd (List.cons.inj he).1 hbracket
      · rw [hitems]
        rfl
  | .obj [],_,fuel + 1,rest,_,_ => rfl
  | .obj ((key,value) :: fields),h,fuel + 1,rest,hfuel,_ => by
      have hfields := parseFields_encode l fields h.2.2 key value (readsAs l value h.2.1) fuel rest (by
        rw [encode_obj_cons,List.length_cons] at hfuel
        omega)
      rw [encode_obj_cons,List.cons_append,parseValue,stringText]
      simp only [List.cons_append,skipBlank,stringText] at hfields ⊢
      rw [List.dropWhile_cons_of_neg (by decide)]
      refine (congrArg (Option.map fun p => (Value.obj (dictOf p.1),p.2)) hfields).trans ?_
      rw [Option.map_some,dictOf_of_nodup h.1]
  | v,_,0,rest,hfuel,_ => by
      have hpos := encode_pos l v
      omega

/-- The items of an array are read one after the other. -/
theorem parseItems_encode (l : Layout) : ∀ items : List (Value F), PlainItems items →
    ∀ item, ReadsAs l item → ∀ fuel rest,
      2 * (encode l item ++ encodeItems l items).length + 1 ≤ fuel →
      parseItems fuel (encode l item ++ encodeItems l items ++ rest) = some (item :: items,rest)
  | items,h,item,hitem,0,rest,hfuel => by omega
  | [],_,item,hitem,fuel + 1,rest,hfuel => by
      obtain ⟨hends,hskip⟩ := encodeItems_skip l ([] : List (Value F)) rest
      rw [List.length_append] at hfuel
      rw [parseItems,List.append_assoc,hitem fuel _ (by omega) hends]
      rfl
  | next :: items,h,item,hitem,fuel + 1,rest,hfuel => by
      obtain ⟨hends,hskip⟩ := encodeItems_skip l (next :: items) rest
      obtain ⟨tail,htail,hnext⟩ :=
        separator_skip l ',' (starts_encode l next) (encodeItems l items ++ rest)
      have hpos := separator_pos l ','
      rw [encodeItems,List.length_append,List.length_append,List.length_append] at hfuel
      have hitems := parseItems_encode l items h.2 next (readsAs l next h.1) fuel rest (by
        rw [List.length_append]
        omega)
      have hcomma : encodeItems l (next :: items) ++ rest = ',' :: tail := by
        rw [encodeItems,List.append_assoc,List.append_assoc,htail]
      rw [parseItems,List.append_assoc,hitem fuel _ (by omega) hends]
      rw [hcomma] at hskip ⊢
      simp only [Option.bind_eq_bind,Option.bind_some,hskip]
      rw [hnext,← List.append_assoc,hitems]
      rfl

theorem parseFields_encode (l : Layout) : ∀ fields : List (String × Value F), PlainFields fields →
    ∀ key value, ReadsAs l value → ∀ fuel rest,
      2 * (stringText l.ascii key ++ l.separator ':' ++ encode l value ++
        encodeFields l fields).length + 1 ≤ fuel →
      parseFields fuel (stringText l.ascii key ++ l.separator ':' ++ encode l value ++
        encodeFields l fields ++ rest) = some ((key,value) :: fields,rest)
  | [] => by
      intro _ key value hvalue fuel rest hfuel
      obtain _ | fuel := fuel
      · omega
      obtain ⟨hends,hskip⟩ := encodeFields_skip l ([] : List (String × Value F)) rest
      obtain ⟨tail,after,htext,hkey,hafter⟩ := parseString_key l key value
        (encodeFields l ([] : List (String × Value F)) ++ rest)
      rw [List.length_append,List.length_append,List.length_append] at hfuel
      rw [List.append_assoc,htext,parseFields,hkey]
      simp only [Option.bind_eq_bind,Option.bind_some,skipBlank_colon,hafter]
      rw [hvalue fuel _ (by omega) hends]
      rfl
  | (next,nextValue) :: fields => by
      intro h key value hvalue fuel rest hfuel
      obtain _ | fuel := fuel
      · omega
      obtain ⟨hends,hskip⟩ := encodeFields_skip l ((next,nextValue) :: fields) rest
      obtain ⟨tail,after,htext,hkey,hafter⟩ := parseString_key l key value
        (encodeFields l ((next,nextValue) :: fields) ++ rest)
      have hstarts : Starts (stringText l.ascii next) := ⟨_,_,rfl,by decide,by decide,by decide⟩
      obtain ⟨tail',htail,hnext⟩ := separator_skip l ',' hstarts
        (l.separator ':' ++ (encode l nextValue ++ (encodeFields l fields ++ rest)))
      have hpos := separator_pos l ','
      rw [encodeFields] at hfuel
      simp only [List.length_append] at hfuel
      have hfields := parseFields_encode l fields h.2 next nextValue (readsAs l nextValue h.1) fuel
        rest (by
          simp only [List.length_append]
          omega)
      have hcomma : encodeFields l ((next,nextValue) :: fields) ++ rest = ',' :: tail' := by
        rw [encodeFields,List.append_assoc,List.append_assoc,List.append_assoc,List.append_assoc,
          htail]
      rw [List.append_assoc,htext,parseFields,hkey]
      simp only [Option.bind_eq_bind,Option.bind_some,skipBlank_colon,hafter]
      rw [hvalue fuel _ (by omega) hends]
      rw [hcomma] at hskip ⊢
      simp only [Option.bind_some,hskip]
      rw [hnext]
      simp only [List.append_assoc] at hfields
      rw [hfields]
      rfl

end

/-- A text made of a value is read as that value. -/
theorem parse_encode (l : Layout) {v : Value F} (h : v.Plain) : parse (encode l v) = some v := by
  have hskip := (starts_encode l v).skipBlank []
  rw [List.append_nil] at hskip
  have hread := readsAs l v h (2 * (encode l v).length + 2) [] (by omega) (fun c hc => nomatch hc)
  rw [List.append_nil] at hread
  rw [parse,hskip,hread]
  rfl

end

end JsonText
