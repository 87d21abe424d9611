import Mathlib.Data.List.Chain
import TapeC.Json.Layout
import TapeC.Json.Lexer

namespace TapeC.Json

/-- A text that is the spellings of some tokens, in order, with blanks around them. -/
inductive Spaced : List Token → List Char → Prop
  | nil {blanks : List Char} (h : ∀ c ∈ blanks, isSpace c = true) : Spaced [] blanks
  | cons {blanks : List Char} (h : ∀ c ∈ blanks, isSpace c = true) (token : Token)
      {tokens : List Token} {text : List Char} (rest : Spaced tokens text) :
      Spaced (token :: tokens) (blanks ++ (token.spelling ++ text))

/-- Whether a token is spelt so that it can be read back: a part of a JSON text, and a number only if it
is an integer of 64 bits. -/
def Token.Spelt : Token → Prop
  | .number (.integer value) => -0x8000000000000000 ≤ value ∧ value ≤ 0xffffffffffffffff
  | .number _ => False
  | .faultyString _ => False
  | .broken _ _ _ => False
  | .other => False
  | _ => True

def Token.isNumber : Token → Bool
  | .number _ => true
  | _ => false

/-- Whether a character ends a numeral that has no fraction and no exponent. -/
def endsNumeral (c : Char) : Bool := !(c.isDigit || c == '.' || c == 'e' || c == 'E')

/-- The code unit of four hexadecimal digits. -/
def hexUnit? (a b c d : Char) : Option Nat := do
  return (((← hexDigit? a) * 16 + (← hexDigit? b)) * 16 + (← hexDigit? c)) * 16 + (← hexDigit? d)

namespace LexState

/-! ### The automaton -/

theorem lex_found (state : LexState) (found : List Token) (cs : List Char) :
    state.lex found cs = found.reverse ++ state.lex [] cs := by
  induction cs generalizing state found with
  | nil => rfl
  | cons c cs ih =>
    simp only [lex]
    rw [ih _ ((state.step c).1.reverse ++ found), ih _ ((state.step c).1.reverse ++ [])]
    simp

theorem lex_cons (state : LexState) (c : Char) (cs : List Char) :
    state.lex [] (c :: cs) = (state.step c).1 ++ (state.step c).2.lex [] cs := by
  simp only [lex]
  rw [lex_found]
  simp

theorem lex_blanks {blanks : List Char} (h : ∀ c ∈ blanks, isSpace c = true) (cs : List Char) :
    ground.lex [] (blanks ++ cs) = ground.lex [] cs := by
  induction blanks with
  | nil => rfl
  | cons c blanks ih =>
    have hc : isSpace c = true := h c List.mem_cons_self
    have hstep : ground.step c = ([], ground) := by simp [step, start, hc]
    rw [List.cons_append, lex_cons, hstep]
    exact ih fun other mem => h other (List.mem_cons_of_mem _ mem)

/-! ### Numbers -/

theorem digit?_digitChar {d : Nat} (h : d < 10) : digit? d.digitChar = some d := by
  have all : ∀ d : Fin 10, digit? (d : Nat).digitChar = some (d : Nat) := by decide
  exact all ⟨d, h⟩

/-- The decimal digits of a positive number: the first is not zero, and they spell the number. -/
theorem exists_digits {n : Nat} (positive : 0 < n) :
    ∃ (d : Nat) (ds : List Nat), Nat.toDigits 10 n = d.digitChar :: ds.map Nat.digitChar ∧
      0 < d ∧ d < 10 ∧ (∀ e ∈ ds, e < 10) ∧ Numeral.ofDigits (ds.reverse ++ [d]) = n := by
  induction n using Nat.strongRecOn with
  | ind n ih =>
    by_cases small : n < 10
    · exact ⟨n, [], by simp [Nat.toDigits_of_lt_base small], positive, small, by simp,
        by simp [Numeral.ofDigits]⟩
    · obtain ⟨d, ds, hd, hpos, hlt, hds, hval⟩ := ih (n / 10) (by omega) (by omega)
      refine ⟨d, ds ++ [n % 10], ?_, hpos, hlt, ?_, ?_⟩
      · rw [Nat.toDigits_of_base_le (by omega) (by omega), hd]
        simp
      · intro e he
        rcases List.mem_append.mp he with he | he
        · exact hds e he
        · have : e = n % 10 := by simpa using he
          omega
      · simp only [List.reverse_append, List.reverse_cons, List.reverse_nil, List.nil_append,
          List.cons_append, Numeral.ofDigits, hval]
        omega

/-- Digits in a phase that collects them, the last one first. -/
theorem lex_phase {phase : NumberPhase} (collect : List Nat → Numeral)
    (next : ∀ seen d, d < 10 →
      (number phase (collect seen)).step d.digitChar = ([], number phase (collect (d :: seen))))
    {ds : List Nat} (small : ∀ d ∈ ds, d < 10) (seen : List Nat) (cs : List Char) :
    (number phase (collect seen)).lex [] (ds.map Nat.digitChar ++ cs) =
      (number phase (collect (ds.reverse ++ seen))).lex [] cs := by
  induction ds generalizing seen with
  | nil => rfl
  | cons d ds ih =>
    rw [List.map_cons, List.cons_append, lex_cons, next seen d (small d List.mem_cons_self),
      List.nil_append, ih fun other mem => small other (List.mem_cons_of_mem _ mem)]
    simp

theorem step_whole_digit (n : Numeral) (seen : List Nat) {d : Nat} (h : d < 10) :
    (number .whole { n with whole := seen }).step d.digitChar =
      ([], number .whole { n with whole := d :: seen }) := by
  simp [step, NumberPhase.step, digit?_digitChar h]

theorem lex_number_ends {phase : NumberPhase} (hp : phase.complete = true) (n : Numeral)
    {cs : List Char} (h : ∀ c ∈ cs.head?, endsNumeral c = true) :
    (number phase n).lex [] cs = .number n.toNumber :: ground.lex [] cs := by
  cases cs with
  | nil => simp [lex, finish, hp]
  | cons c cs =>
    have hc := h c rfl
    simp only [endsNumeral, Bool.not_eq_true', Bool.or_eq_false_iff] at hc
    obtain ⟨⟨⟨digit, point⟩, small⟩, large⟩ := hc
    have hstep : phase.step n c = .ends := by
      cases phase with
      | zero | whole | fraction | exponent =>
        simp [NumberPhase.step, digit?, digit, afterDigits, point, small, large]
      | minus | point | mark | sign => cases hp
    rw [lex_cons, lex_cons]
    simp [step, hstep]

/-- The digits of a positive number, after the state that takes the first of them. -/
theorem lex_digits (state : LexState) (numeral : Numeral) {n : Nat} (positive : 0 < n)
    (hstart : ∀ d, 0 < d → d < 10 →
      state.step d.digitChar = ([], number .whole { numeral with whole := [d] }))
    {cs : List Char} (h : ∀ c ∈ cs.head?, endsNumeral c = true) :
    ∃ whole, Numeral.ofDigits whole = n ∧
      state.lex [] (Nat.toDigits 10 n ++ cs) =
        .number { numeral with whole }.toNumber :: ground.lex [] cs := by
  obtain ⟨d, ds, hd, hpos, hlt, hds, hval⟩ := exists_digits positive
  refine ⟨ds.reverse ++ [d], hval, ?_⟩
  rw [hd, List.cons_append, lex_cons, hstart d hpos hlt, List.nil_append,
    lex_phase ({ numeral with whole := · }) (fun seen _ => step_whole_digit numeral seen) hds,
    lex_number_ends rfl _ h]

theorem step_ground_digit {d : Nat} (positive : 0 < d) (h : d < 10) :
    ground.step d.digitChar = ([], number .whole { whole := [d] }) := by
  have digit : d = 1 ∨ d = 2 ∨ d = 3 ∨ d = 4 ∨ d = 5 ∨ d = 6 ∨ d = 7 ∨ d = 8 ∨ d = 9 := by omega
  rcases digit with rfl | rfl | rfl | rfl | rfl | rfl | rfl | rfl | rfl <;> rfl

theorem step_minus_digit {d : Nat} (positive : 0 < d) (h : d < 10) (n : Numeral) :
    (number .minus n).step d.digitChar = ([], number .whole { n with whole := [d] }) := by
  have hd := digit?_digitChar h
  obtain ⟨k, rfl⟩ := Nat.exists_eq_succ_of_ne_zero (Nat.ne_of_gt positive)
  simp [step, NumberPhase.step, hd]

theorem lex_integer {value : Int} (lower : -0x8000000000000000 ≤ value)
    (upper : value ≤ 0xffffffffffffffff) {cs : List Char}
    (h : ∀ c ∈ cs.head?, endsNumeral c = true) :
    ground.lex [] ((Token.number (.integer value)).spelling ++ cs) =
      .number (.integer value) :: ground.lex [] cs := by
  rcases Int.lt_trichotomy value 0 with negative | rfl | positive
  · have hpos : 0 < value.natAbs := by omega
    obtain ⟨whole, hval, hlex⟩ := lex_digits (number .minus { negative := true })
      { negative := true } hpos (fun d hd hlt => step_minus_digit hd hlt _) h
    have hsign : ground.step '-' = ([], number .minus { negative := true }) := rfl
    have hnumber : ({ negative := true, whole } : Numeral).toNumber = .integer value := by
      have hbound : 0 < value.natAbs ∧ value.natAbs ≤ 0x8000000000000000 := ⟨hpos, by omega⟩
      have habs : -(value.natAbs : Int) = value := by omega
      rw [Numeral.toNumber, if_pos ⟨rfl, rfl⟩, if_pos rfl, hval, if_pos hbound, habs]
    rw [Token.spelling, if_pos negative, List.cons_append, lex_cons, hsign, List.nil_append, hlex,
      hnumber]
  · have hzero : (Token.number (.integer 0)).spelling = ['0'] := rfl
    have hstep : ground.step '0' = ([], number .zero { whole := [0] }) := rfl
    rw [hzero, List.singleton_append, lex_cons, hstep, List.nil_append,
      lex_number_ends rfl _ h]
    rfl
  · have hpos : 0 < value.natAbs := by omega
    obtain ⟨whole, hval, hlex⟩ := lex_digits ground {} hpos
      (fun d hd hlt => step_ground_digit hd hlt) h
    have hnumber : ({ whole } : Numeral).toNumber = .integer value := by
      have hbound : value.natAbs ≤ Numeral.maxSignificand := by
        unfold Numeral.maxSignificand
        omega
      have habs : (value.natAbs : Int) = value := by omega
      rw [Numeral.toNumber, if_pos ⟨rfl, rfl⟩, if_neg Bool.false_ne_true, hval, if_pos hbound, habs]
    rw [Token.spelling, if_neg (by omega), hlex, hnumber]

/-! ### Strings -/

/-- A string in progress that has no fault so far, with its text in reverse. -/
def quoted (text : List Char) : LexState := string { text := .ok text }

theorem hexDigit?_digitChar {d : Nat} (h : d < 16) : hexDigit? d.digitChar = some d := by
  have all : ∀ d : Fin 16, hexDigit? (d : Nat).digitChar = some (d : Nat) := by decide
  exact all ⟨d, h⟩

theorem utf8Size_of_hexDigit? {c : Char} {d : Nat} (h : hexDigit? c = some d) : c.utf8Size = 1 := by
  have ascii : c.val ≤ 0x7f := by
    simp only [hexDigit?, Char.isDigit, Bool.and_eq_true, decide_eq_true_eq] at h
    split at h
    next digit => exact UInt32.le_trans digit.2 (by decide)
    next =>
      split at h
      next lower => exact UInt32.le_trans lower.2 (by decide)
      next =>
        split at h
        next upper => exact UInt32.le_trans upper.2 (by decide)
        next => cases h
  simp [Char.utf8Size, ascii]

theorem step_hex_digit (s : StringScan) {bytes value d : Nat} {c : Char} (hc : hexDigit? c = some d)
    (h : bytes < 3) :
    (string { s with phase := .hex bytes (some value) }).step c =
      ([], string { s with phase := .hex (bytes + 1) (some (value * 16 + d)) }) := by
  have more : bytes + 1 < 4 := by omega
  simp [step, StringScan.step, hc, utf8Size_of_hexDigit? hc, more]

theorem step_hex_last (s : StringScan) {value d : Nat} {c : Char} (hc : hexDigit? c = some d) :
    (string { s with phase := .hex 3 (some value) }).step c =
      ([], string (s.pushUnit (value * 16 + d))) := by
  simp only [step, StringScan.step, hc, utf8Size_of_hexDigit? hc]
  rfl

/-- A hexadecimal escape in a string. -/
theorem lex_unit {s : StringScan} (hp : s.phase = .plain) {a b c d : Char} {unit : Nat}
    (h : hexUnit? a b c d = some unit) (cs : List Char) :
    (string s).lex [] ('\\' :: 'u' :: a :: b :: c :: d :: cs) =
      (string (s.pushUnit unit)).lex [] cs := by
  simp only [hexUnit?, Option.bind_eq_bind, Option.bind_eq_some_iff] at h
  obtain ⟨w, ha, x, hb, y, hc, z, hd, hunit⟩ := h
  cases hunit
  have backslash : (string s).step '\\' = ([], string { s with phase := .escape }) := by
    simp [step, StringScan.step, hp]
  have letter : (string { s with phase := .escape }).step 'u' =
      ([], string { s with phase := .hex 0 (some 0) }) := by
    simp [step, StringScan.step]
  simp only [lex_cons, backslash, letter, step_hex_digit s ha, step_hex_digit s hb,
    step_hex_digit s hc, step_hex_last s hd, Nat.lt_add_one, Nat.reduceAdd, Nat.reduceLT,
    List.nil_append, Nat.zero_mul, Nat.zero_add]

theorem lex_hexEscape (text : List Char) (high low : Nat) (hh : high < 16) (hl : low < 16)
    (cs : List Char) :
    (quoted text).lex [] ('\\' :: 'u' :: '0' :: '0' :: high.digitChar :: low.digitChar :: cs) =
      (quoted (Char.ofNat (high * 16 + low) :: text)).lex [] cs := by
  have zero : hexDigit? '0' = some 0 := by decide
  have hunit : hexUnit? '0' '0' high.digitChar low.digitChar = some (high * 16 + low) := by
    simp [hexUnit?, zero, hexDigit?_digitChar hh, hexDigit?_digitChar hl]
  have notLow : ¬0xdc00 ≤ high * 16 + low := by omega
  have notHigh : ¬0xd800 ≤ high * 16 + low := by omega
  have pushed : StringScan.pushUnit { text := .ok text } (high * 16 + low) =
      { text := .ok (Char.ofNat (high * 16 + low) :: text) } := by
    simp [StringScan.pushUnit, notLow, notHigh, StringScan.push, Except.map]
  rw [quoted, lex_unit rfl hunit, pushed, quoted]

theorem lex_escapeChar (text : List Char) (c : Char) (cs : List Char) :
    (quoted text).lex [] (escapeChar c ++ cs) = (quoted (c :: text)).lex [] cs := by
  unfold escapeChar
  split
  -- All but the last case are escapes of one letter, read by evaluation.
  case h_8 quote backslash _ _ _ _ _ =>
    by_cases small : c.toNat < 0x10
    · have hcode := lex_hexEscape text 0 c.toNat (by omega) small cs
      rw [Nat.zero_mul, Nat.zero_add, Char.ofNat_toNat] at hcode
      rw [if_pos small, Nat.toDigits_of_lt_base small]
      exact hcode
    by_cases control : c.toNat < 0x20
    · have hcode := lex_hexEscape text 1 (c.toNat % 16) (by omega) (by omega) cs
      have hval : 1 * 16 + c.toNat % 16 = c.toNat := by omega
      have hone : c.toNat / 16 = 1 := by omega
      rw [hval, Char.ofNat_toNat] at hcode
      rw [if_neg small, if_pos control, Nat.toDigits_of_base_le (by omega) (by omega), hone]
      exact hcode
    · have hstep : (quoted text).step c = ([], quoted (c :: text)) := by
        have hq : c ≠ '"' := quote
        have hb : c ≠ '\\' := backslash
        simp [quoted, step, StringScan.step, StringScan.dropHigh, StringScan.push, hq, hb, control,
          Except.map]
      rw [if_neg small, if_neg control, List.singleton_append, lex_cons, hstep, List.nil_append]
  all_goals rfl

theorem lex_escaped (text chars cs : List Char) :
    (quoted text).lex [] (chars.flatMap escapeChar ++ cs) =
      (quoted (chars.reverse ++ text)).lex [] cs := by
  induction chars generalizing text with
  | nil => rfl
  | cons c chars ih =>
    rw [List.flatMap_cons, List.append_assoc, lex_escapeChar, ih]
    simp

theorem lex_string (text : String) (cs : List Char) :
    ground.lex [] ((Token.string text).spelling ++ cs) = .string text :: ground.lex [] cs := by
  have hopen : ground.step '"' = ([], quoted []) := rfl
  have hclose : (quoted (text.toList.reverse ++ [])).step '"' = ([.string text], ground) := by
    simp [quoted, step, StringScan.step, StringScan.close, StringScan.dropHigh]
  rw [Token.spelling, List.append_assoc, List.append_assoc, List.singleton_append, lex_cons, hopen,
    List.nil_append, lex_escaped, List.singleton_append, lex_cons, hclose, List.singleton_append]

/-! ### Spelt tokens -/

/-- One token is read back in front of any text that cannot lengthen it. -/
theorem lex_spelling {token : Token} (spelt : token.Spelt) {cs : List Char}
    (h : token.isNumber = true → ∀ c ∈ cs.head?, endsNumeral c = true) :
    ground.lex [] (token.spelling ++ cs) = token :: ground.lex [] cs := by
  cases token with
  | string text => exact lex_string text cs
  | number value =>
    cases value with
    | integer value => exact lex_integer spelt.1 spelt.2 (h rfl)
    | real value => exact spelt.elim
    | tooLarge => exact spelt.elim
  | bool b => cases b <;> exact lex_found ground [_] cs
  | faultyString fault => exact spelt.elim
  | broken => exact spelt.elim
  | other => exact spelt.elim
  | _ => exact lex_found ground [_] cs

end LexState

theorem endsNumeral_of_isSpace {c : Char} (h : isSpace c = true) : endsNumeral c = true := by
  simp only [isSpace, Bool.or_eq_true, beq_iff_eq] at h
  obtain ((rfl | rfl) | rfl) | rfl := h <;> rfl

/-- A token that is no number begins with a character that ends a numeral. -/
theorem Token.exists_spelling {token : Token} (spelt : token.Spelt) (h : token.isNumber = false) :
    ∃ c cs, token.spelling = c :: cs ∧ endsNumeral c = true := by
  cases token with
  | number value => cases h
  | bool b => cases b <;> exact ⟨_, _, rfl, rfl⟩
  | faultyString fault => exact spelt.elim
  | broken => exact spelt.elim
  | other => exact spelt.elim
  | _ => exact ⟨_, _, rfl, rfl⟩

/-- No two numbers are neighbours. -/
def Apart (ts : List Token) : Prop :=
  ts.IsChain fun left right => left.isNumber = true → right.isNumber = false

namespace Apart

theorem singleton (token : Token) : Apart [token] := List.IsChain.singleton token

/-- Tokens one after the other, where no number begins the second part. -/
theorem append {left right : List Token} (hl : Apart left) (hr : Apart right)
    (first : ∀ token ∈ right.head?, token.isNumber = false) : Apart (left ++ right) :=
  List.IsChain.append hl hr fun _ _ token mem _ => first token mem

theorem cons {token : Token} {ts : List Token} (h : token.isNumber = false) (apart : Apart ts) :
    Apart (token :: ts) :=
  List.IsChain.cons apart fun _ _ number => absurd number (by simp [h])

end Apart

/-- Tokens that can be read back with or without blanks between them. -/
structure Legible (ts : List Token) : Prop where
  spelt : ∀ token ∈ ts, token.Spelt
  apart : Apart ts

namespace Spaced

/-- More blanks in front. -/
theorem blanks_append {tokens : List Token} {text : List Char} (h : Spaced tokens text)
    {blanks : List Char} (hb : ∀ c ∈ blanks, isSpace c = true) : Spaced tokens (blanks ++ text) := by
  cases h with
  | @nil more hm =>
    exact .nil fun c hc => (List.mem_append.mp hc).elim (hb c) (hm c)
  | @cons more hm token tokens text rest =>
    rw [← List.append_assoc]
    exact .cons (fun c hc => (List.mem_append.mp hc).elim (hb c) (hm c)) token rest

end Spaced

theorem isSpace_newline (depth : Nat) : ∀ c ∈ newline depth, isSpace c = true := by
  intro c hc
  rcases List.mem_cons.mp hc with rfl | hc
  · rfl
  · rw [List.eq_of_mem_replicate hc]
    rfl

/-- The layout of tokens puts blanks around their spellings. -/
theorem spaced_layout (depth : Nat) (ts : List Token) : Spaced ts (layout depth ts) := by
  have none : ∀ c ∈ ([] : List Char), isSpace c = true := by simp
  -- A line break belongs to the blanks of the token after it, whichever token brought it about.
  fun_induction layout depth ts with
  | case1 depth => exact .nil none
  | case2 depth rest ih => exact .cons none .bracketOpen (.cons none .bracketClose ih)
  | case3 depth rest ih => exact .cons none .braceOpen (.cons none .braceClose ih)
  | case4 depth rest _ _ ih =>
    exact .cons none .bracketOpen (ih.blanks_append (isSpace_newline _))
  | case5 depth rest _ _ ih =>
    exact .cons none .braceOpen (ih.blanks_append (isSpace_newline _))
  | case6 depth rest _ _ ih =>
    rw [List.append_assoc]
    exact .cons (isSpace_newline _) .bracketClose ih
  | case7 depth rest _ _ ih =>
    rw [List.append_assoc]
    exact .cons (isSpace_newline _) .braceClose ih
  | case8 depth rest _ _ ih =>
    exact .cons none .comma (ih.blanks_append (isSpace_newline _))
  | case9 depth rest _ _ ih =>
    have blank : ∀ c ∈ [' '], isSpace c = true := by simp [isSpace]
    exact .cons none .colon (ih.blanks_append blank)
  | case10 depth token rest => exact .cons none token ‹_›

end TapeC.Json
