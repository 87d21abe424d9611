import TapeC.Proofs.JsonLexing

namespace TapeC.Json

/-! ### Numerals -/

/-- Digits as they are written, given the last one first. -/
def digitText (ds : List Nat) : List Char := ds.reverse.map Nat.digitChar

namespace Numeral

structure WellFormed (n : Numeral) : Prop where
  whole : ∀ d ∈ n.whole, d < 10
  fraction : ∀ d ∈ n.fraction, d < 10
  exponent : ∀ d ∈ n.exponent, d < 10
  /-- There is a whole part, and it does not begin with zero unless it is zero. -/
  first : n.whole = [0] ∨ ∃ d, n.whole.getLast? = some d ∧ 0 < d

def signText (n : Numeral) : List Char := if n.negative then ['-'] else []

def fractionText (n : Numeral) : List Char :=
  if n.fraction = [] then [] else '.' :: digitText n.fraction

/-- The ways of writing the exponent. -/
inductive ExponentText (n : Numeral) : List Char → Prop
  | none (h : n.exponent = []) (plus : n.smallExponent = false) : ExponentText n []
  | plain {mark : Char} (hm : mark = 'e' ∨ mark = 'E') (h : n.exponent ≠ [])
      (plus : n.smallExponent = false) : ExponentText n (mark :: digitText n.exponent)
  | signed {mark : Char} (hm : mark = 'e' ∨ mark = 'E') (h : n.exponent ≠ []) :
      ExponentText n (mark :: (if n.smallExponent then '-' else '+') :: digitText n.exponent)

end Numeral

namespace LexState

/-- A row of digits, after a state that takes the first of them. -/
theorem lex_digitText {state : LexState} {phase : NumberPhase} (collect : List Nat → Numeral)
    {ds : List Nat} (small : ∀ d ∈ ds, d < 10) (nonempty : ds ≠ [])
    (first : ∀ d, d < 10 → ds.getLast? = some d →
      state.step d.digitChar = ([], number phase (collect [d])))
    (next : ∀ seen d, d < 10 →
      (number phase (collect seen)).step d.digitChar = ([], number phase (collect (d :: seen))))
    (cs : List Char) :
    state.lex [] (digitText ds ++ cs) = (number phase (collect ds)).lex [] cs := by
  obtain ⟨more, d, rfl⟩ := (List.eq_nil_or_concat ds).resolve_left nonempty
  have hd : d < 10 := small d (by simp)
  have hmore : ∀ e ∈ more.reverse, e < 10 := fun e he => small e (by simp_all)
  rw [List.concat_eq_append, digitText, List.reverse_append, List.reverse_singleton,
    List.singleton_append, List.map_cons, List.cons_append, lex_cons, first d hd (by simp),
    List.nil_append, lex_phase collect next hmore, List.reverse_reverse]

variable {n : Numeral}

theorem lex_wholePart (h : n.WellFormed) (cs : List Char) :
    ∃ phase, (phase = .zero ∨ phase = .whole) ∧
      ground.lex [] (n.signText ++ (digitText n.whole ++ cs)) =
        (number phase { negative := n.negative, whole := n.whole }).lex [] cs := by
  rcases h.first with zero | ⟨d, hlast, positive⟩
  · refine ⟨.zero, .inl rfl, ?_⟩
    cases hn : n.negative <;> simp only [Numeral.signText, hn, zero] <;> rfl
  · refine ⟨.whole, .inr rfl, ?_⟩
    have nonempty : n.whole ≠ [] := by
      intro empty
      simp [empty] at hlast
    have hfirst : ∀ e, n.whole.getLast? = some e → 0 < e := by
      intro e he
      rw [hlast] at he
      exact Option.some.inj he ▸ positive
    cases hn : n.negative with
    | false =>
      simp only [Numeral.signText, hn, Bool.false_eq_true, if_false, List.nil_append]
      exact lex_digitText ({ whole := · }) h.whole nonempty
        (fun e small he => step_ground_digit (hfirst e he) small)
        (fun seen _ => step_whole_digit {} seen) cs
    | true =>
      have minus : ground.step '-' = ([], number .minus { negative := true }) := rfl
      simp only [Numeral.signText, hn, if_true, List.singleton_append]
      rw [lex_cons, minus, List.nil_append]
      exact lex_digitText ({ negative := true, whole := · }) h.whole nonempty
        (fun e small he => step_minus_digit (hfirst e he) small _)
        (fun seen _ => step_whole_digit { negative := true } seen) cs

theorem lex_fractionPart (h : n.WellFormed) {phase : NumberPhase}
    (hp : phase = .zero ∨ phase = .whole) (cs : List Char) :
    ∃ after, (after = .zero ∨ after = .whole ∨ after = .fraction) ∧
      (number phase { negative := n.negative, whole := n.whole }).lex [] (n.fractionText ++ cs) =
        (number after { negative := n.negative, whole := n.whole, fraction := n.fraction }).lex []
          cs := by
  by_cases empty : n.fraction = []
  · exact ⟨phase, hp.elim .inl (.inr ∘ .inl), by simp [Numeral.fractionText, empty]⟩
  · refine ⟨.fraction, .inr (.inr rfl), ?_⟩
    have point : ∀ m, (number phase m).step '.' = ([], number .point m) := by
      rcases hp with rfl | rfl <;> exact fun m => rfl
    rw [Numeral.fractionText, if_neg empty, List.cons_append, lex_cons, point, List.nil_append]
    apply lex_digitText ({ negative := n.negative, whole := n.whole, fraction := · }) h.fraction
      empty
    · intro d small _
      simp [step, NumberPhase.step, digit?_digitChar small]
    · intro seen d small
      simp [step, NumberPhase.step, digit?_digitChar small]

theorem lex_exponentPart (h : n.WellFormed) {text : List Char} (written : n.ExponentText text)
    {phase : NumberPhase} (hp : phase = .zero ∨ phase = .whole ∨ phase = .fraction)
    {cs : List Char} (ends : ∀ c ∈ cs.head?, endsNumeral c = true) :
    (number phase { negative := n.negative, whole := n.whole, fraction := n.fraction }).lex []
      (text ++ cs) = .number n.toNumber :: ground.lex [] cs := by
  have marked : ∀ mark : Char, mark = 'e' ∨ mark = 'E' → ∀ m,
      (number phase m).step mark = ([], number .mark m) := by
    rintro mark (rfl | rfl) <;> rcases hp with rfl | rfl | rfl <;> exact fun m => rfl
  -- The digits come after the mark or after the sign; both take a digit in the same way.
  have digits : ∀ {state : LexState}, n.exponent ≠ [] →
      (∀ d, d < 10 → state.step d.digitChar = ([], number .exponent { n with exponent := [d] })) →
      state.lex [] (digitText n.exponent ++ cs) = .number n.toNumber :: ground.lex [] cs := by
    intro state nonempty first
    have collected := lex_digitText ({ n with exponent := · }) h.exponent nonempty
      (fun d small _ => first d small)
      (fun seen d small => by simp [step, NumberPhase.step, digit?_digitChar small]) cs
    rw [collected, lex_number_ends rfl _ ends]
  cases written with
  | none empty plus =>
    have whole : { negative := n.negative, whole := n.whole, fraction := n.fraction } = n := by
      cases n
      simp_all
    have complete : phase.complete = true := by rcases hp with rfl | rfl | rfl <;> rfl
    rw [List.nil_append, whole, lex_number_ends complete _ ends]
  | plain hm nonempty plus =>
    rw [List.cons_append, lex_cons, marked _ hm, List.nil_append]
    apply digits nonempty
    intro d small
    simp [step, NumberPhase.step, digit?_digitChar small, plus]
  | signed hm nonempty =>
    rw [List.cons_append, List.cons_append, lex_cons, marked _ hm, List.nil_append, lex_cons]
    have sign : ∀ m : Numeral, m.smallExponent = false →
        (number .mark m).step (if n.smallExponent then '-' else '+') =
          ([], number .sign { m with smallExponent := n.smallExponent }) := by
      intro m hm
      cases hs : n.smallExponent with
      | false =>
        cases m
        cases hm
        rfl
      | true => rfl
    rw [sign _ rfl, List.nil_append]
    apply digits nonempty
    intro d small
    simp [step, NumberPhase.step, digit?_digitChar small]

end LexState

/-! ### Strings -/

/-- A part of a string between the quotation marks. -/
inductive Piece where
  /-- A character that stands for itself. -/
  | plain (c : Char) (h : c ≠ '"' ∧ c ≠ '\\' ∧ 0x20 ≤ c.toNat)
  /-- An escape of one letter, for a character. -/
  | letter (name c : Char) (h : StringScan.escaped? name = some c)
  /-- Four hexadecimal digits, for a code unit. -/
  | unit (a b c d : Char) (value : Nat) (h : hexUnit? a b c d = some value)

namespace Piece

def text : Piece → List Char
  | .plain c _ => [c]
  | .letter name _ _ => ['\\', name]
  | .unit a b c d _ _ => ['\\', 'u', a, b, c, d]

def isHigh (value : Nat) : Bool := 0xd800 ≤ value && value ≤ 0xdbff

def isLow (value : Nat) : Bool := 0xdc00 ≤ value && value ≤ 0xdfff

/-- What pieces stand for. The code units of a pair of surrogates stand for one character; a surrogate
that is not part of such a pair stands for none. -/
def decode : List Piece → Except Fault (List Char)
  | [] => .ok []
  | .plain c _ :: pieces => (decode pieces).map (c :: ·)
  | .letter _ c _ :: pieces => (decode pieces).map (c :: ·)
  | .unit _ _ _ _ value _ :: pieces =>
    if isLow value then .error .loneSurrogate
    else if isHigh value then
      match pieces with
      | .unit _ _ _ _ second _ :: pieces =>
        if isLow second then
          (decode pieces).map
            (Char.ofNat (0x10000 + (value - 0xd800) * 0x400 + (second - 0xdc00)) :: ·)
        else .error .loneSurrogate
      | _ => .error .unfinishedPair
    else (decode pieces).map (Char.ofNat value :: ·)

end Piece

/-- The token of a string that stands for some characters, or for none. -/
def stringToken : Except Fault (List Char) → Token
  | .ok cs => .string (String.ofList cs)
  | .error fault => .faultyString fault

def quotedText (pieces : List Piece) : List Char := '"' :: (pieces.flatMap Piece.text ++ ['"'])

namespace StringScan

/-- The string in progress after a piece. -/
def take (s : StringScan) : Piece → StringScan
  | .plain c _ => s.dropHigh.push c
  | .letter _ c _ => s.dropHigh.push c
  | .unit _ _ _ _ unit _ => s.pushUnit unit

theorem phase_note (s : StringScan) (fault : Fault) : (s.note fault).phase = s.phase := by
  unfold note
  split <;> rfl

theorem phase_take (s : StringScan) (piece : Piece) : (s.take piece).phase = .plain := by
  cases piece with
  | plain c h => rfl
  | letter name c h => rfl
  | unit a b c d unit h =>
    simp only [take, pushUnit]
    split <;> (repeat' split) <;> simp [phase_note, push]

theorem push_dropHigh (s : StringScan) (phase : StringPhase) (c : Char) :
    { s with phase }.dropHigh.push c = s.dropHigh.push c := by
  cases hs : s.high <;> cases ht : s.text <;> simp [dropHigh, note, push, hs, ht]

theorem text_dropHigh_of_error {s : StringScan} {fault : Fault} (h : s.text = .error fault) :
    s.dropHigh.text = .error fault := by
  unfold dropHigh note
  split <;> simp [h]

theorem text_take_of_error {s : StringScan} {fault : Fault} (h : s.text = .error fault)
    (piece : Piece) : (s.take piece).text = .error fault := by
  cases piece with
  | plain c hc => simp [take, push, text_dropHigh_of_error h, Except.map]
  | letter name c hc => simp [take, push, text_dropHigh_of_error h, Except.map]
  | unit a b c d unit hc =>
    simp only [take, pushUnit, note, push, h, Except.map]
    split <;> (repeat' split) <;> simp

/-- A fault stays, whatever follows. -/
theorem close_of_error {s : StringScan} {fault : Fault} (h : s.text = .error fault)
    (pieces : List Piece) : (pieces.foldl take s).close = .faultyString fault := by
  induction pieces generalizing s with
  | nil => simp [close, text_dropHigh_of_error h]
  | cons piece pieces ih => exact ih (text_take_of_error h piece)

/-- A code unit with no surrogate before it, unless it is a low surrogate. -/
theorem take_unit (seen : List Char) {a b c d : Char} {unit : Nat} (h : hexUnit? a b c d = some unit)
    (notLow : ¬Piece.isLow unit = true) :
    take { text := .ok seen } (.unit a b c d unit h) =
      if Piece.isHigh unit then { text := .ok seen, high := some unit }
      else { text := .ok (Char.ofNat unit :: seen) } := by
  have hlow : ¬(0xdc00 ≤ unit ∧ unit ≤ 0xdfff) := by simpa [Piece.isLow] using notLow
  simp [take, pushUnit, push, Piece.isHigh, hlow, Except.map]

theorem pushUnit_pair (seen : List Char) (high : Nat) {unit : Nat} (low : Piece.isLow unit = true) :
    pushUnit { text := .ok seen, high := some high } unit =
      { text := .ok (Char.ofNat (0x10000 + (high - 0xd800) * 0x400 + (unit - 0xdc00)) :: seen) } := by
  have hlow : 0xdc00 ≤ unit ∧ unit ≤ 0xdfff := by simpa [Piece.isLow] using low
  simp [pushUnit, push, hlow, Except.map]

theorem text_pushUnit_lone (seen : List Char) {unit : Nat} (high : Option Nat)
    (h : high.isNone = Piece.isLow unit) :
    (pushUnit { text := .ok seen, high } unit).text = .error .loneSurrogate := by
  cases high with
  | none =>
    have hlow : 0xdc00 ≤ unit ∧ unit ≤ 0xdfff := by simpa [Piece.isLow] using h.symm
    simp [pushUnit, note, hlow]
  | some high =>
    have hlow : ¬(0xdc00 ≤ unit ∧ unit ≤ 0xdfff) := by simpa [Piece.isLow] using h.symm
    simp [pushUnit, note, hlow]

theorem stringToken_push (seen : List Char) (c : Char) (result : Except Fault (List Char)) :
    stringToken (result.map ((c :: seen).reverse ++ ·)) =
      stringToken ((result.map (c :: ·)).map (seen.reverse ++ ·)) := by
  cases result <;> simp [Except.map]

/-- A string in progress gives what its pieces stand for. -/
theorem close_pieces (seen : List Char) (pieces : List Piece) :
    (pieces.foldl take { text := .ok seen }).close =
      stringToken ((Piece.decode pieces).map (seen.reverse ++ ·)) := by
  fun_induction Piece.decode pieces generalizing seen with
  | case1 => simp [close, dropHigh, stringToken, Except.map]
  | case2 c h pieces ih => exact (ih (c :: seen)).trans (stringToken_push seen c _)
  | case3 name c h pieces ih => exact (ih (c :: seen)).trans (stringToken_push seen c _)
  | case4 a b c d unit h pieces low =>
    exact close_of_error (text_pushUnit_lone seen none low.symm) pieces
  | case5 a b c d high h notLow isHigh a' b' c' d' low h' pieces isLow ih =>
    rw [List.foldl_cons, take_unit seen h notLow, if_pos isHigh, List.foldl_cons, take,
      pushUnit_pair seen high isLow, ih, stringToken_push]
  | case6 a b c d high h notLow isHigh a' b' c' d' unit h' pieces isLow =>
    rw [List.foldl_cons, take_unit seen h notLow, if_pos isHigh]
    apply close_of_error (text_pushUnit_lone seen (some high) _) pieces
    simpa using isLow
  | case7 a b c d high h pieces notLow isHigh other =>
    rw [List.foldl_cons, take_unit seen h notLow, if_pos isHigh]
    cases pieces with
    | nil => rfl
    | cons piece pieces =>
      cases piece with
      | plain c hc => exact close_of_error rfl pieces
      | letter name c hc => exact close_of_error rfl pieces
      | unit a b c d unit hc => exact (other a b c d unit hc pieces rfl).elim
  | case8 a b c d unit h pieces notLow notHigh ih =>
    rw [List.foldl_cons, take_unit seen h notLow, if_neg notHigh, ih, stringToken_push]

end StringScan

namespace LexState

theorem lex_piece {s : StringScan} (hp : s.phase = .plain) (piece : Piece) (cs : List Char) :
    (string s).lex [] (piece.text ++ cs) = (string (s.take piece)).lex [] cs := by
  cases piece with
  | plain c h =>
    obtain ⟨quote, backslash, visible⟩ := h
    have control : ¬c.toNat < 0x20 := by omega
    have hstep : (string s).step c = ([], string (s.dropHigh.push c)) := by
      simp [step, StringScan.step, hp, quote, backslash, control]
    rw [Piece.text, List.singleton_append, lex_cons, hstep, List.nil_append, StringScan.take]
  | letter name c h =>
    have hname : name ≠ 'u' := by
      rintro rfl
      cases h
    have hstart : (string s).step '\\' = ([], string { s with phase := .escape }) := by
      simp [step, StringScan.step, hp]
    have hstep : (string { s with phase := .escape }).step name =
        ([], string (s.dropHigh.push c)) := by
      simp [step, StringScan.step, hname, h, StringScan.push_dropHigh s .escape]
    rw [Piece.text, List.cons_append, List.singleton_append, lex_cons, hstart, List.nil_append,
      lex_cons, hstep, List.nil_append, StringScan.take]
  | unit a b c d unit h => exact lex_unit hp h cs

theorem step_close {s : StringScan} (hp : s.phase = .plain) :
    (string s).step '"' = ([s.close], ground) := by
  have hstep : s.step '"' = .inr s.close := by simp [StringScan.step, hp]
  simp only [step, hstep, StringScan.close]
  cases s.dropHigh.text <;> rfl

theorem lex_pieces {s : StringScan} (hp : s.phase = .plain) (pieces : List Piece) (cs : List Char) :
    (string s).lex [] (pieces.flatMap Piece.text ++ '"' :: cs) =
      (pieces.foldl StringScan.take s).close :: ground.lex [] cs := by
  induction pieces generalizing s with
  | nil =>
    rw [List.flatMap_nil, List.nil_append, lex_cons, step_close hp]
    rfl
  | cons piece pieces ih =>
    rw [List.flatMap_cons, List.append_assoc, lex_piece hp, ih (s.phase_take piece),
      List.foldl_cons]

theorem lex_quotedText (pieces : List Piece) (cs : List Char) :
    ground.lex [] (quotedText pieces ++ cs) =
      stringToken (Piece.decode pieces) :: ground.lex [] cs := by
  have hopen : ground.step '"' = ([], string {}) := rfl
  have decoded : (Piece.decode pieces).map (([] : List Char).reverse ++ ·) = Piece.decode pieces := by
    cases Piece.decode pieces <;> rfl
  rw [quotedText, List.cons_append, List.append_assoc, List.singleton_append, lex_cons, hopen,
    List.nil_append, lex_pieces rfl, StringScan.close_pieces, decoded]

end LexState

/-! ### Texts -/

/-- The ways of writing a token. -/
inductive Token.SpeltAs : Token → List Char → Prop
  | plain {token : Token} (h : token.Spelt) : SpeltAs token token.spelling
  | numeral {n : Numeral} (h : n.WellFormed) {exponent : List Char}
      (he : n.ExponentText exponent) :
      SpeltAs (.number n.toNumber) (n.signText ++ (digitText n.whole ++ (n.fractionText ++ exponent)))
  | quoted (pieces : List Piece) : SpeltAs (stringToken (Piece.decode pieces)) (quotedText pieces)

/-- A text of some tokens, in order, each of them spelt in some way and with blanks around them. -/
inductive Written : List Token → List Char → Prop
  | nil {blanks : List Char} (h : ∀ c ∈ blanks, isSpace c = true) : Written [] blanks
  | cons {blanks : List Char} (h : ∀ c ∈ blanks, isSpace c = true) {token : Token}
      {spelling : List Char} (spelt : token.SpeltAs spelling) {tokens : List Token}
      {text : List Char} (rest : Written tokens text) :
      Written (token :: tokens) (blanks ++ (spelling ++ text))

theorem Written.plain {token : Token} {tokens : List Token} {text : List Char} (spelt : token.Spelt)
    (rest : Written tokens text) : Written (token :: tokens) (token.spelling ++ text) :=
  .cons (fun _ mem => absurd mem List.not_mem_nil) (.plain spelt) rest

theorem Written.quoted {tokens : List Token} {text : List Char} (pieces : List Piece)
    (rest : Written tokens text) :
    Written (stringToken (Piece.decode pieces) :: tokens) (quotedText pieces ++ text) :=
  .cons (fun _ mem => absurd mem List.not_mem_nil) (.quoted pieces) rest

/-- One token is found in front of any text that cannot lengthen it. -/
theorem LexState.lex_speltAs {token : Token} {spelling : List Char} (spelt : token.SpeltAs spelling)
    {cs : List Char} (h : token.isNumber = true → ∀ c ∈ cs.head?, endsNumeral c = true) :
    ground.lex [] (spelling ++ cs) = token :: ground.lex [] cs := by
  cases spelt with
  | plain hspelt => exact lex_spelling hspelt h
  | quoted pieces => exact lex_quotedText pieces cs
  | @numeral n wellFormed exponent he =>
    simp only [List.append_assoc]
    obtain ⟨_, hwhole, lexed⟩ := lex_wholePart wellFormed (n.fractionText ++ (exponent ++ cs))
    obtain ⟨_, hfraction, more⟩ := lex_fractionPart wellFormed hwhole (exponent ++ cs)
    rw [lexed, more, lex_exponentPart wellFormed he hfraction (h rfl)]

theorem Token.SpeltAs.exists_cons {token : Token} {spelling : List Char}
    (spelt : token.SpeltAs spelling) (h : token.isNumber = false) :
    ∃ c cs, spelling = c :: cs ∧ endsNumeral c = true := by
  cases spelt with
  | plain hspelt => exact exists_spelling hspelt h
  | numeral wellFormed he => cases h
  | quoted pieces => exact ⟨_, _, rfl, rfl⟩

namespace Written

/-- What follows a number, when it is not another one. -/
theorem head_endsNumeral {tokens : List Token} {text : List Char} (h : Written tokens text)
    (first : ∀ token ∈ tokens.head?, token.isNumber = false) :
    ∀ c ∈ text.head?, endsNumeral c = true := by
  intro c hc
  cases h with
  | @nil blanks hb => exact endsNumeral_of_isSpace (hb c (List.mem_of_mem_head? hc))
  | @cons blanks hb token spelling spelt tokens text rest =>
    cases blanks with
    | cons blank blanks =>
      have hc : blank = c := Option.some.inj hc
      exact hc ▸ endsNumeral_of_isSpace (hb blank List.mem_cons_self)
    | nil =>
      obtain ⟨d, ds, rfl, hends⟩ := spelt.exists_cons (first token rfl)
      have hc : d = c := Option.some.inj hc
      exact hc ▸ hends

/-- The lexer finds the tokens, whatever their spelling and wherever the blanks stand. -/
theorem tokens_eq {ts : List Token} {text : String} (h : Written ts text.toList)
    (apart : Apart ts) : tokens text = ts := by
  show LexState.ground.lex [] text.toList = ts
  generalize text.toList = text at h
  induction h with
  | @nil blanks hb =>
    have hlex := LexState.lex_blanks hb []
    rwa [List.append_nil] at hlex
  | @cons blanks hb token spelling spelt tokens text rest ih =>
    have hends : token.isNumber = true → ∀ c ∈ text.head?, endsNumeral c = true := by
      intro number
      apply rest.head_endsNumeral
      intro next hnext
      exact apart.rel_head? hnext number
    rw [LexState.lex_blanks hb, LexState.lex_speltAs spelt hends, ih apart.tail]

end Written

/-- Tokens in their own spelling. -/
theorem Spaced.written {ts : List Token} {text : List Char} (h : Spaced ts text)
    (spelt : ∀ token ∈ ts, token.Spelt) : Written ts text := by
  induction h with
  | nil hb => exact .nil hb
  | cons hb token rest ih =>
    obtain ⟨htoken, hrest⟩ := List.forall_mem_cons.mp spelt
    exact .cons hb (.plain htoken) (ih hrest)

end TapeC.Json
