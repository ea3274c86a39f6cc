import Hotplug.Proofs.Json.Grammar
import Hotplug.Proofs.Json.Layout
/-!
The scanner keeps to the grammar of the lexemes: it takes every lexeme that is written, and a token
that stands for something was written as some lexeme. Which fault a broken lexeme gets is not
covered.
-/
namespace Hotplug.Json

open Hotplug.Text

variable {t w : List Char} {rest : List Symbol}

namespace Numeral

theorem isDigit_of_digitValue {c : Char} {d : Nat} (value : digitValue? c = some d) :
    c.isDigit = true ∧ d = digit c := by
  cases is : c.isDigit with
  | true =>
    rw [digitValue_of_isDigit is] at value
    exact ⟨rfl, (Option.some.inj value).symm⟩
  | false =>
    rw [digitValue_of_not_isDigit is] at value
    cases value

theorem spanDigits_symbols (t : List Char) (taken : List Nat) :
    ∃ cs r, t = cs ++ r ∧ (∀ c ∈ cs, c.isDigit = true) ∧
      spanDigits (symbols t) taken = (taken.reverse ++ cs.map digit, symbols r) := by
  induction t generalizing taken with
  | nil => exact ⟨[], [], rfl, by simp, by simp [spanDigits]⟩
  | cons c t ih =>
    cases value : digitValue? c with
    | none => exact ⟨[], c :: t, rfl, by simp, by simp [spanDigits, value]⟩
    | some d =>
      obtain ⟨is, rfl⟩ := isDigit_of_digitValue value
      obtain ⟨cs, r, rfl, all, span⟩ := ih (digit c :: taken)
      refine ⟨c :: cs, r, rfl, List.forall_mem_cons.mpr ⟨is, all⟩, ?_⟩
      simp only [symbols_cons, spanDigits, value]
      simpa using span

theorem someDigits_symbols {ds : List Nat} (found : someDigits (symbols t) = .ok (ds, rest)) :
    ∃ cs r, t = cs ++ r ∧ rest = symbols r ∧ Digits cs ∧ ds = cs.map digit := by
  obtain ⟨cs, r, rfl, all, span⟩ := spanDigits_symbols t []
  unfold someDigits at found
  split at found
  · cases found
  · rw [span, List.reverse_nil, List.nil_append] at found
    cases cs with
    | nil => cases found
    | cons c cs =>
      obtain ⟨rfl, rfl⟩ := Prod.mk.inj (Except.ok.inj found)
      exact ⟨c :: cs, r, rfl, rfl, ⟨by simp, all⟩, rfl⟩

theorem scanWhole_plain {s : List Symbol} {ds : List Nat} (found : scanWhole s = .ok (ds, rest)) :
    ∀ d more, ds ≠ 0 :: d :: more := by
  obtain ⟨⟨digits, left⟩, -, kept⟩ := bind_ok.mp found
  dsimp only at kept
  split at kept
  · cases kept
  · rename_i plain
    obtain ⟨rfl, -⟩ := Prod.mk.inj (Except.ok.inj kept)
    intro d more eq
    exact plain d more eq

theorem scanWhole_symbols {ds : List Nat} (found : scanWhole (symbols t) = .ok (ds, rest)) :
    ∃ cs r, t = cs ++ r ∧ rest = symbols r ∧ Whole cs ∧ ds = cs.map digit := by
  obtain ⟨cs, r, rfl, rfl, digits, rfl⟩ := someDigits_symbols (scanWhole_ok found)
  refine ⟨cs, r, rfl, rfl, ⟨digits, ?_⟩, rfl⟩
  rintro more rfl
  cases more with
  | nil => rfl
  | cons c more => exact absurd rfl (scanWhole_plain found (digit c) (more.map digit))

theorem scanFraction_symbols {ds : List Nat} (found : scanFraction (symbols t) = .ok (ds, rest)) :
    ∃ fraction r, t = fractionText fraction ++ r ∧ rest = symbols r ∧
      (∀ cs ∈ fraction, Digits cs) ∧ ds = (fraction.getD []).map digit := by
  cases t with
  | nil =>
    obtain ⟨rfl, rfl⟩ := Prod.mk.inj (Except.ok.inj found)
    exact ⟨none, [], rfl, rfl, by simp, rfl⟩
  | cons c t =>
    by_cases point : c = '.'
    · subst point
      obtain ⟨cs, r, rfl, rfl, digits, rfl⟩ := someDigits_symbols found
      exact ⟨some cs, r, rfl, rfl, by simpa using digits, rfl⟩
    · have none : scanFraction (symbols (c :: t)) = .ok ([], symbols (c :: t)) := by
        rw [symbols_cons]
        unfold scanFraction
        split
        · rename_i eq
          exact absurd (Symbol.char.inj (List.cons.inj eq).1) point
        · rfl
      rw [none] at found
      obtain ⟨rfl, rfl⟩ := Prod.mk.inj (Except.ok.inj found)
      exact ⟨.none, c :: t, rfl, rfl, by simp, rfl⟩

theorem exponentSign_symbols (t : List Char) : ∃ sign r, t = sign ++ r ∧
    sign ∈ [[], ['+'], ['-']] ∧ exponentSign (symbols t) = (sign == ['-'], symbols r) := by
  cases t with
  | nil => exact ⟨[], [], rfl, by simp, rfl⟩
  | cons c t =>
    by_cases plus : c = '+'
    · subst plus
      exact ⟨['+'], t, rfl, by simp, rfl⟩
    · by_cases minus : c = '-'
      · subst minus
        exact ⟨['-'], t, rfl, by simp, rfl⟩
      · refine ⟨[], c :: t, rfl, by simp, ?_⟩
        rw [symbols_cons]
        unfold exponentSign
        split
        · rename_i eq
          exact absurd (Symbol.char.inj (List.cons.inj eq).1) plus
        · rename_i eq
          exact absurd (Symbol.char.inj (List.cons.inj eq).1) minus
        · rfl

theorem scanExponent_symbols {exponent : Option Int}
    (found : scanExponent (symbols t) = .ok (exponent, rest)) :
    ∃ es r, t = es ++ r ∧ rest = symbols r ∧ ExponentSpelled exponent es := by
  by_cases letter : ∃ c more, t = c :: more ∧ (c = 'e' ∨ c = 'E')
  · obtain ⟨c, more, rfl, letter⟩ := letter
    rw [symbols_cons, scanExponent_letter letter] at found
    obtain ⟨sign, r, rfl, known, split⟩ := exponentSign_symbols more
    obtain ⟨⟨ds, left⟩, number, kept⟩ := bind_ok.mp found
    rw [split] at number kept
    obtain ⟨cs, r, rfl, rfl, digits, rfl⟩ := someDigits_symbols number
    obtain ⟨rfl, rfl⟩ := Prod.mk.inj (Except.ok.inj kept)
    refine ⟨c :: (sign ++ cs), r, by simp, rfl, ?_⟩
    exact .some (by simpa using letter) known digits
  · have other : ∀ c more, symbols t = .char c :: more → c ≠ 'e' ∧ c ≠ 'E' := by
      intro c more eq
      obtain ⟨d, rest, rfl, same, -⟩ := List.map_eq_cons_iff.mp eq
      obtain rfl := Symbol.char.inj same
      refine ⟨fun e => letter ⟨d, rest, rfl, .inl e⟩, fun e => letter ⟨d, rest, rfl, .inr e⟩⟩
    rw [scanExponent_none other] at found
    obtain ⟨rfl, rfl⟩ := Prod.mk.inj (Except.ok.inj found)
    exact ⟨[], t, rfl, rfl, .none⟩

/-- A numeral that was read had been written. -/
theorem scan_symbols {negative : Bool} {numeral : Numeral}
    (found : scan negative (symbols t) = .ok (numeral, rest)) :
    ∃ s r, t = s ++ r ∧ rest = symbols r ∧ numeral.Spelled (signText negative ++ s) := by
  obtain ⟨⟨whole, afterWhole⟩, wholeFound, found⟩ := bind_ok.mp found
  obtain ⟨⟨fraction, afterFraction⟩, fractionFound, found⟩ := bind_ok.mp found
  obtain ⟨⟨exponent, afterExponent⟩, exponentFound, kept⟩ := bind_ok.mp found
  obtain ⟨cs, t, rfl, rfl, digits, rfl⟩ := scanWhole_symbols wholeFound
  obtain ⟨fs, t, rfl, rfl, fractions, rfl⟩ := scanFraction_symbols fractionFound
  obtain ⟨es, r, rfl, rfl, exponents⟩ := scanExponent_symbols exponentFound
  obtain ⟨rfl, rfl⟩ := Prod.mk.inj (Except.ok.inj kept)
  refine ⟨cs ++ (fractionText fs ++ es), r, by simp, rfl, ?_⟩
  exact .parts negative digits fractions exponents

variable {exponent : Option Int} {es : List Char}

theorem exponent_noDigit (spelled : ExponentSpelled exponent es) (stops : Stops rest) :
    ∀ c more, symbols es ++ rest = .char c :: more → c.isDigit = false ∧ c ≠ '.' := by
  intro c more eq
  cases spelled with
  | none => exact ⟨(stops c more eq).1, (stops c more eq).2.1⟩
  | some letter _ _ =>
    obtain ⟨rfl, -⟩ : _ = c ∧ _ := by simpa using eq
    simp only [List.mem_cons, List.not_mem_nil, or_false] at letter
    rcases letter with rfl | rfl <;> decide

theorem exponentSign_digits {cs : List Char} (digits : Digits cs) (rest : List Symbol) :
    exponentSign (symbols cs ++ rest) = (false, symbols cs ++ rest) := by
  obtain ⟨c, cs, rfl⟩ := List.exists_cons_of_ne_nil digits.nonempty
  have is := digits.all c (by simp)
  rw [symbols_cons, List.cons_append]
  unfold exponentSign
  split
  · rename_i eq
    obtain rfl := Symbol.char.inj (List.cons.inj eq).1
    cases is
  · rename_i eq
    obtain rfl := Symbol.char.inj (List.cons.inj eq).1
    cases is
  · rfl

theorem scanExponent_spelled (spelled : ExponentSpelled exponent es) (stops : Stops rest) :
    scanExponent (symbols es ++ rest) = .ok (exponent, rest) := by
  cases spelled with
  | none => exact scanExponent_none fun c more eq => (stops c more eq).2.2
  | @some letter sign cs known signed digits =>
    have found := someDigits_digits digits stops.noDigit
    have split : exponentSign (symbols sign ++ (symbols cs ++ rest)) =
        (sign == ['-'], symbols cs ++ rest) := by
      simp only [List.mem_cons, List.not_mem_nil, or_false] at signed
      rcases signed with rfl | rfl | rfl
      · exact exponentSign_digits digits rest
      · rfl
      · rfl
    rw [symbols_cons, symbols_append, List.cons_append, List.append_assoc,
      scanExponent_letter (by simpa using known)]
    unfold exponentDigits
    rw [split]
    exact bind_ok.mpr ⟨_, found, rfl⟩

theorem fraction_noDigit (fraction : Option (List Char)) {s : List Symbol} (stops : NoDigit s) :
    NoDigit (symbols (fractionText fraction) ++ s) := by
  cases fraction with
  | none => exact stops
  | some ds => exact noDigit_cons (by decide)

theorem Spelled.scan {numeral : Numeral} {s : List Char} (spelled : numeral.Spelled s)
    (stops : Stops rest) : ∃ cs, s = signText numeral.negative ++ cs ∧
      (∃ c more, cs = c :: more ∧ c.isDigit = true) ∧
      Numeral.scan numeral.negative (symbols cs ++ rest) = .ok (numeral, rest) := by
  cases spelled with
  | @parts cs es fraction exponent negative whole fractions exponents =>
    have behind := exponent_noDigit exponents stops
    have wholeFound := scanWhole_whole whole
      (fraction_noDigit fraction fun c more eq => (behind c more eq).1)
    have fractionFound := scanFraction_text fractions behind
    refine ⟨_, rfl, ?_, ?_⟩
    · obtain ⟨c, cs, rfl⟩ := List.exists_cons_of_ne_nil whole.nonempty
      exact ⟨c, _, rfl, whole.all c (by simp)⟩
    · simp only [symbols_append, List.append_assoc]
      refine bind_ok.mpr ⟨_, wholeFound, bind_ok.mpr ⟨_, fractionFound, bind_ok.mpr ?_⟩⟩
      exact ⟨_, scanExponent_spelled exponents stops, rfl⟩

end Numeral

namespace Quoted

def take (q : Quoted) : Piece → Quoted
  | .char c => q.push c
  | .unit n => q.unit n

end Quoted

theorem plainEscape_of_mem {e c : Char} (mem : (e, c) ∈ escapes) :
    Quoted.plainEscape? e = some c ∧ e ≠ 'u' := by
  have all : ∀ pair ∈ escapes, Quoted.plainEscape? pair.1 = some pair.2 ∧ pair.1 ≠ 'u' := by decide
  exact all _ mem

theorem mem_escapes {e c : Char} (plain : Quoted.plainEscape? e = some c) : (e, c) ∈ escapes := by
  unfold Quoted.plainEscape? at plain
  split at plain
  all_goals
    cases plain
    try decide

variable {p : Piece} {ps : List Piece} {s : List Char}

theorem Piece.Spelled.scan (spelled : p.Spelled w) (rest : List Symbol) (q : Quoted) :
    scanString (symbols w ++ rest) q = scanString rest (q.take p) := by
  cases spelled with
  | plain quote backslash printed =>
    have notControl : ¬ _ < 0x20 := Nat.not_lt.mpr printed
    simp [scanString, Quoted.take, quote, notControl]
  | letter mem =>
    obtain ⟨plain, notUnit⟩ := plainEscape_of_mem mem
    simp [scanString, plain, Quoted.take]
  | number a b c d =>
    simp [scanString, Quoted.hex4?, Symbol.char?, a, b, c, d, Quoted.take]

theorem Body.scan (body : Body ps s) (rest : List Symbol) (q : Quoted) :
    scanString (symbols s ++ .char '"' :: rest) q =
      (.string (ps.foldl Quoted.take q).close none, rest) := by
  induction body generalizing q with
  | nil => simp [scanString]
  | cons spelled _ ih => rw [symbols_append, List.append_assoc, spelled.scan, ih, List.foldl_cons]

theorem symbols_uncons {symbol : Symbol} {more : List Symbol} (eq : symbols t = symbol :: more) :
    ∃ c r, t = c :: r ∧ symbol = .char c ∧ symbols r = more := by
  obtain ⟨c, r, rfl, rfl, rfl⟩ := List.map_eq_cons_iff.mp eq
  exact ⟨c, r, rfl, rfl, rfl⟩

theorem symbols_uncons_four {i j k l : Symbol} {more : List Symbol}
    (eq : symbols t = i :: j :: k :: l :: more) : ∃ a b c d r, t = a :: b :: c :: d :: r ∧
      i = .char a ∧ j = .char b ∧ k = .char c ∧ l = .char d ∧ symbols r = more := by
  obtain ⟨a, t₁, rfl, first, eq₁⟩ := symbols_uncons eq
  obtain ⟨b, t₂, rfl, second, eq₂⟩ := symbols_uncons eq₁
  obtain ⟨c, t₃, rfl, third, eq₃⟩ := symbols_uncons eq₂
  obtain ⟨d, t₄, rfl, fourth, eq₄⟩ := symbols_uncons eq₃
  exact ⟨a, b, c, d, t₄, rfl, first, second, third, fourth, eq₄⟩

theorem symbols_eq_cons {c : Char} {more : List Symbol} (eq : symbols t = .char c :: more) :
    ∃ r, t = c :: r ∧ symbols r = more := by
  obtain ⟨d, r, rfl, same, tail⟩ := symbols_uncons eq
  exact ⟨r, by rw [Symbol.char.inj same], tail⟩

theorem not_stray {size : Nat} {more : List Symbol} : symbols t ≠ .stray size :: more := by
  intro eq
  obtain ⟨c, r, -, same, -⟩ := symbols_uncons eq
  cases same

theorem hex4_symbols {a b c d : Char} {n : Nat}
    (value : Quoted.hex4? (.char a) (.char b) (.char c) (.char d) = some n) :
    Piece.Spelled (.unit n) ['\\', 'u', a, b, c, d] := by
  simp only [Quoted.hex4?, Symbol.char?, Option.bind_eq_bind, Option.bind_some,
    Option.bind_eq_some_iff] at value
  obtain ⟨i, first, j, second, k, third, l, fourth, sum⟩ := value
  rw [← Option.some.inj sum]
  exact .number first second third fourth

theorem Body.front {t t' : List Char} {q : Quoted} {text : Except Fault String}
    (spelled : p.Spelled w) (eq : t = w ++ t')
    (inner : ∃ ps s r, t' = s ++ '"' :: r ∧ rest = symbols r ∧ Body ps s ∧
      text = (ps.foldl Quoted.take (q.take p)).close) :
    ∃ ps s r, t = s ++ '"' :: r ∧ rest = symbols r ∧ Body ps s ∧
      text = (ps.foldl Quoted.take q).close := by
  obtain ⟨ps, s, r, rfl, rest, body, text⟩ := inner
  exact ⟨p :: ps, w ++ s, r, by rw [eq, List.append_assoc], rest, .cons spelled body, text⟩

/-- A string that was read to its end had been written. -/
theorem scanString_symbols {q : Quoted} {text : Except Fault String}
    (found : scanString (symbols t) q = (.string text none, rest)) :
    ∃ ps s r, t = s ++ '"' :: r ∧ rest = symbols r ∧ Body ps s ∧
      text = (ps.foldl Quoted.take q).close := by
  generalize given : symbols t = input at found
  fun_induction scanString input q generalizing t with
  | case2 => exact absurd given not_stray
  | case4 q a b c d more n value ih =>
    obtain ⟨u, rfl, after⟩ := symbols_eq_cons given
    obtain ⟨t, rfl, digits⟩ := symbols_eq_cons after
    obtain ⟨a, b, c, d, t, rfl, rfl, rfl, rfl, rfl, behind⟩ := symbols_uncons_four digits
    exact Body.front (hex4_symbols value) rfl (ih behind found)
  | case7 q e more notUnit c plain ih =>
    obtain ⟨u, rfl, after⟩ := symbols_eq_cons given
    obtain ⟨t, rfl, behind⟩ := symbols_eq_cons after
    exact Body.front (.letter (mem_escapes plain)) rfl (ih behind found)
  | case10 more q =>
    obtain ⟨t, rfl, rfl⟩ := symbols_eq_cons given
    obtain ⟨same, rfl⟩ := Prod.mk.inj found
    exact ⟨[], [], t, rfl, rfl, .nil, (Token.string.inj same).1.symm⟩
  | case12 c more q backslash quote printed ih =>
    obtain ⟨t, rfl, behind⟩ := symbols_eq_cons given
    exact Body.front (.plain quote backslash (Nat.not_lt.mp printed)) rfl (ih behind found)
  | case1 | case3 | case5 | case6 | case8 | case9 | case11 => cases found

theorem settle_fault {q : Quoted} {f : Fault} (fault : q.fault = some f) :
    q.settle.fault = some f := by
  unfold Quoted.settle
  cases q.lead <;> simp [fault]

theorem take_fault {q : Quoted} {f : Fault} (fault : q.fault = some f) (p : Piece) :
    (q.take p).fault = some f := by
  have settled := settle_fault fault
  cases p with
  | char c => exact settled
  | unit n =>
    unfold Quoted.take Quoted.unit
    dsimp only
    split
    · cases q.lead <;> simp [fault]
    · split <;> exact settled

theorem close_fault {q : Quoted} {f : Fault} (fault : q.fault = some f) (ps : List Piece) :
    (ps.foldl Quoted.take q).close = .error f := by
  induction ps generalizing q with
  | nil => simp [Quoted.close, settle_fault fault]
  | cons p ps ih => exact ih (take_fault fault p)

section
variable {taken : List Char} {n : Nat}

def Quoted.clean (taken : List Char) : Quoted := ⟨taken, none, none, false⟩

def Quoted.waiting (taken : List Char) (n : Nat) : Quoted := ⟨taken, some n, none, false⟩

theorem clean_lead (lead : 0xD800 ≤ n ∧ n ≤ 0xDBFF) :
    (Quoted.clean taken).take (.unit n) = .waiting taken n := by
  have notTrail : ¬ (0xDC00 ≤ n ∧ n ≤ 0xDFFF) := by omega
  simp [Quoted.take, Quoted.unit, Quoted.clean, Quoted.waiting, Quoted.settle, lead, notTrail]

theorem clean_trail (trail : 0xDC00 ≤ n ∧ n ≤ 0xDFFF) :
    ((Quoted.clean taken).take (.unit n)).fault = some .malformed := by
  simp [Quoted.take, Quoted.unit, Quoted.clean, trail]

theorem clean_unit (notLead : ¬ (0xD800 ≤ n ∧ n ≤ 0xDBFF)) (notTrail : ¬ (0xDC00 ≤ n ∧ n ≤ 0xDFFF)) :
    (Quoted.clean taken).take (.unit n) = .clean (Char.ofNat n :: taken) := by
  simp only [Quoted.take, Quoted.unit, Quoted.clean, Quoted.settle, notLead, notTrail, if_false]

theorem waiting_trail {m : Nat} (trail : 0xDC00 ≤ m ∧ m ≤ 0xDFFF) :
    (Quoted.waiting taken n).take (.unit m) =
      .clean (Char.ofNat (0x10000 + (n - 0xD800) * 0x400 + (m - 0xDC00)) :: taken) := by
  have code : (n - 0xD800) * 0x400 + (m - 0xDC00) + 0x10000 =
      0x10000 + (n - 0xD800) * 0x400 + (m - 0xDC00) := by omega
  simp [Quoted.take, Quoted.unit, Quoted.clean, Quoted.waiting, trail, code]

theorem waiting_other {p : Piece} (other : ∀ m, p = .unit m → ¬ (0xDC00 ≤ m ∧ m ≤ 0xDFFF)) :
    ((Quoted.waiting taken n).take p).fault = some .malformed := by
  cases p with
  | char c => rfl
  | unit m =>
    have notTrail := other m rfl
    simp only [Quoted.take, Quoted.unit, Quoted.waiting, Quoted.settle, notTrail, if_false]
    split <;> rfl

end

/-- A string says what its pieces stand for. -/
theorem close_clean (ps : List Piece) (taken : List Char) :
    (ps.foldl Quoted.take (.clean taken)).close =
      match charsOf? ps with
      | some cs => .ok (String.ofList (taken.reverse ++ cs))
      | none => .error .malformed := by
  -- along the pieces as their characters are told, two at a time where they are a pair
  fun_induction charsOf? ps generalizing taken with
  | case1 => simp [Quoted.close, Quoted.clean, Quoted.settle]
  | case2 c ps ih =>
    have next : (Quoted.clean taken).take (.char c) = .clean (c :: taken) := rfl
    rw [List.foldl_cons, next, ih]
    cases charsOf? ps <;> simp
  | case3 n m ps lead trail ih =>
    rw [List.foldl_cons, List.foldl_cons, clean_lead lead, waiting_trail trail, ih]
    cases charsOf? ps <;> simp
  | case4 n m ps lead notTrail =>
    rw [List.foldl_cons, List.foldl_cons, clean_lead lead]
    exact close_fault (waiting_other fun _ eq => Piece.unit.inj eq ▸ notTrail) ps
  | case5 n m ps notLead trail =>
    rw [List.foldl_cons]
    exact close_fault (clean_trail trail) _
  | case6 n m ps notLead notTrail ih =>
    rw [List.foldl_cons, clean_unit notLead notTrail, ih]
    cases charsOf? (.unit m :: ps) <;> simp
  | case7 n ps alone surrogate =>
    rw [List.foldl_cons]
    by_cases lead : 0xD800 ≤ n ∧ n ≤ 0xDBFF
    · rw [clean_lead lead]
      cases ps with
      | nil => rfl
      | cons p ps =>
        refine close_fault (waiting_other fun m eq => ?_) ps
        exact absurd rfl (eq ▸ alone m ps)
    · exact close_fault (clean_trail (by omega)) ps
  | case8 n ps alone plain ih =>
    rw [List.foldl_cons, clean_unit (by omega) (by omega), ih]
    cases charsOf? ps <;> simp

def heard (ps : List Piece) : Except Fault String :=
  match textOf? ps with
  | some text => .ok text
  | none => .error .malformed

theorem close_empty (ps : List Piece) : (ps.foldl Quoted.take .empty).close = heard ps := by
  have shown : (ps.foldl Quoted.take .empty).close = _ := close_clean ps []
  rw [shown, heard, textOf?]
  cases charsOf? ps <;> rfl

def Lexeme.token : Lexeme → Token
  | .opening bracket => .opening bracket
  | .closing bracket => .closing bracket
  | .comma => .comma
  | .colon => .colon
  | .literal value => .literal (.ok value)
  | .number numeral => numberToken numeral.value?
  | .string pieces => .string (heard pieces) none

variable {l : Lexeme}

theorem scanNumber_spelled {numeral : Numeral} {negative : Bool} {s : List Symbol}
    (found : Numeral.scan negative s = .ok (numeral, rest)) :
    scanNumber negative s = (numberToken numeral.value?, rest) := by
  unfold scanNumber numberToken
  rw [found]
  dsimp only
  cases numeral.value? <;> rfl

theorem Numeral.Spelled.tokens {numeral : Numeral} (spelled : numeral.Spelled w)
    (stops : Stops rest) : Json.tokens (symbols w ++ rest) =
      numberToken numeral.value? :: Json.tokens rest := by
  obtain ⟨_, rfl, ⟨c, more, rfl, digit⟩, scan⟩ := spelled.scan stops
  have read := scanNumber_spelled scan
  cases sign : numeral.negative with
  | true =>
    rw [sign] at read
    have front : skipBlanks (symbols (signText true ++ c :: more) ++ rest) =
        .char '-' :: (symbols (c :: more) ++ rest) := by
      simp [signText, skipBlanks, isJsonBlank]
    have token : scanToken '-' (symbols (c :: more) ++ rest) =
        scanNumber true (symbols (c :: more) ++ rest) := rfl
    rw [tokens_cons front, token, read]
  | false =>
    rw [sign] at read
    have front : skipBlanks (symbols (signText false ++ c :: more) ++ rest) =
        .char c :: (symbols more ++ rest) :=
      skipBlanks_of_not_blank (not_blank_of_isDigit digit) _
    have token : scanToken c (symbols more ++ rest) =
        scanNumber false (symbols (c :: more) ++ rest) := scanToken_digit digit _
    rw [tokens_cons front, token, read]

theorem Body.tokens {ps : List Piece} {s : List Char} (body : Body ps s) (rest : List Symbol) :
    Json.tokens (symbols ('"' :: (s ++ ['"'])) ++ rest) =
      .string (heard ps) none :: Json.tokens rest := by
  have front : skipBlanks (symbols ('"' :: (s ++ ['"'])) ++ rest) =
      .char '"' :: (symbols s ++ .char '"' :: rest) := by
    simp [skipBlanks, isJsonBlank]
  have read : scanToken '"' (symbols s ++ .char '"' :: rest) = (.string (heard ps) none, rest) := by
    rw [← close_empty]
    exact body.scan rest .empty
  rw [tokens_cons front, read]

/-- A lexeme that is written is read, if it is not a numeral that goes on. -/
theorem Lexeme.Spelled.tokens (spelled : l.Spelled w) (stops : ∀ n, l = .number n → Stops rest) :
    Json.tokens (symbols w ++ rest) = l.token :: Json.tokens rest := by
  cases spelled with
  | opening bracket =>
    cases bracket
    · exact tokens_openSquare rest
    · exact tokens_openCurly rest
  | closing bracket =>
    cases bracket
    · exact tokens_closeSquare rest
    · exact tokens_closeCurly rest
  | comma => exact tokens_comma rest
  | colon => exact tokens_colon rest
  | literal value =>
    rcases value with _ | (_ | _)
    · exact tokens_null rest
    · exact tokens_false rest
    · exact tokens_true rest
  | number spelled => exact spelled.tokens (stops _ rfl)
  | string body => exact body.tokens rest

/-- A token that was written to its end, whether or not it stands for something. -/
def Token.Whole : Token → Prop
  | .literal (.error _) | .number (.error _) false | .string (.error _) (some _) | .other => False
  | _ => True

def Lexed (token : Token) (t : List Char) (rest : List Symbol) : Prop :=
  ∃ (l : Lexeme) (w r : List Char), t = w ++ r ∧ rest = symbols r ∧ l.Spelled w ∧ l.token = token

theorem lexed_number {negative : Bool} {token : Token}
    (found : scanNumber negative (symbols t) = (token, rest)) (whole : token.Whole) :
    Lexed token (signText negative ++ t) rest := by
  cases scan : Numeral.scan negative (symbols t) with
  | error f =>
    unfold scanNumber at found
    rw [scan] at found
    obtain ⟨rfl, -⟩ := Prod.mk.inj found
    exact whole.elim
  | ok scanned =>
    obtain ⟨numeral, after⟩ := scanned
    rw [scanNumber_spelled scan] at found
    obtain ⟨rfl, rfl⟩ := Prod.mk.inj found
    obtain ⟨s, r, rfl, rfl, spelled⟩ := Numeral.scan_symbols scan
    exact ⟨.number numeral, signText negative ++ s, r, by simp, rfl, .number spelled, rfl⟩

theorem keyword_symbols {ks : List Char} (found : keyword ks (symbols t) = .ok rest) :
    ∃ r, t = ks ++ r ∧ rest = symbols r := by
  induction ks generalizing t with
  | nil => exact ⟨t, rfl, (Except.ok.inj found).symm⟩
  | cons k ks ih =>
    cases t with
    | nil => cases found
    | cons c t =>
      simp only [symbols_cons, keyword] at found
      split at found
      · rename_i same
        obtain ⟨r, rfl, rest⟩ := ih found
        exact ⟨r, by rw [Symbol.char.inj same, List.cons_append], rest⟩
      · cases found

theorem lexed_literal {c : Char} {ks : List Char} {value : Literal} {token : Token}
    (text : value.text = c :: ks) (found : scanLiteral ks value (symbols t) = (token, rest))
    (whole : token.Whole) : Lexed token (c :: t) rest := by
  unfold scanLiteral at found
  split at found
  · rename_i word
    obtain ⟨r, rfl, rfl⟩ := keyword_symbols word
    obtain ⟨rfl, rfl⟩ := Prod.mk.inj found
    exact ⟨.literal value, value.text, r, by rw [text, List.cons_append], rfl, .literal value, rfl⟩
  · obtain ⟨rfl, -⟩ := Prod.mk.inj found
    exact whole.elim

theorem scanString_whole {s : List Symbol} {q : Quoted} {token : Token}
    (found : scanString s q = (token, rest)) (whole : token.Whole) :
    ∃ text, token = .string text none := by
  fun_induction scanString s q with
  | case2 | case4 | case7 | case12 => simp_all
  | case10 more q =>
    obtain ⟨rfl, -⟩ := Prod.mk.inj found
    exact ⟨_, rfl⟩
  | case1 | case3 | case5 | case6 | case8 | case9 | case11 =>
    obtain ⟨rfl, -⟩ := Prod.mk.inj found
    exact whole.elim

theorem lexed_string {token : Token} (found : scanString (symbols t) .empty = (token, rest))
    (whole : token.Whole) : Lexed token ('"' :: t) rest := by
  obtain ⟨text, rfl⟩ := scanString_whole found whole
  obtain ⟨ps, s, r, rfl, rfl, body, rfl⟩ := scanString_symbols found
  refine ⟨.string ps, '"' :: (s ++ ['"']), r, by simp, rfl, .string body, ?_⟩
  rw [Lexeme.token, close_empty]

/-- A token that was written to its end was written as a lexeme. -/
theorem scanToken_symbols {c : Char} {token : Token} (found : scanToken c (symbols t) = (token, rest))
    (whole : token.Whole) : Lexed token (c :: t) rest := by
  unfold scanToken at found
  split at found
  case h_1 =>
    obtain ⟨rfl, rfl⟩ := Prod.mk.inj found
    exact ⟨.opening .square, ['['], t, rfl, rfl, .opening .square, rfl⟩
  case h_2 =>
    obtain ⟨rfl, rfl⟩ := Prod.mk.inj found
    exact ⟨.closing .square, [']'], t, rfl, rfl, .closing .square, rfl⟩
  case h_3 =>
    obtain ⟨rfl, rfl⟩ := Prod.mk.inj found
    exact ⟨.opening .curly, ['\x7b'], t, rfl, rfl, .opening .curly, rfl⟩
  case h_4 =>
    obtain ⟨rfl, rfl⟩ := Prod.mk.inj found
    exact ⟨.closing .curly, ['\x7d'], t, rfl, rfl, .closing .curly, rfl⟩
  case h_5 =>
    obtain ⟨rfl, rfl⟩ := Prod.mk.inj found
    exact ⟨.comma, [','], t, rfl, rfl, .comma, rfl⟩
  case h_6 =>
    obtain ⟨rfl, rfl⟩ := Prod.mk.inj found
    exact ⟨.colon, [':'], t, rfl, rfl, .colon, rfl⟩
  case h_7 => exact lexed_string found whole
  case h_8 => exact lexed_literal rfl found whole
  case h_9 => exact lexed_literal rfl found whole
  case h_10 => exact lexed_literal rfl found whole
  case h_11 => exact lexed_number found whole
  case h_12 =>
    split at found
    · rw [← symbols_cons] at found
      exact lexed_number found whole
    · obtain ⟨rfl, -⟩ := Prod.mk.inj found
      exact whole.elim

theorem isJsonBlank_iff (c : Char) : isJsonBlank c = true ↔ c ∈ [' ', '\n', '\t', '\r'] := by
  simp [isJsonBlank, or_assoc]

theorem tokens_blanks {blanks : List Char} (blank : Blank blanks) (rest : List Symbol) :
    tokens (symbols blanks ++ rest) = tokens rest := by
  apply tokens_congr
  induction blanks with
  | nil => rfl
  | cons c blanks ih =>
    obtain ⟨first, later⟩ := List.forall_mem_cons.mp blank
    simpa [skipBlanks, (isJsonBlank_iff c).mpr first] using ih later

theorem skipBlanks_symbols (t : List Char) : ∃ blanks r, t = blanks ++ r ∧ Blank blanks ∧
    skipBlanks (symbols t) = symbols r := by
  induction t with
  | nil => exact ⟨[], [], rfl, by simp [Blank], rfl⟩
  | cons c t ih =>
    cases blank : isJsonBlank c with
    | true =>
      obtain ⟨blanks, r, rfl, all, skipped⟩ := ih
      refine ⟨c :: blanks, r, rfl, List.forall_mem_cons.mpr ⟨(isJsonBlank_iff c).mp blank, all⟩, ?_⟩
      simpa [skipBlanks, blank] using skipped
    | false =>
      refine ⟨[], c :: t, rfl, by simp [Blank], ?_⟩
      exact skipBlanks_of_not_blank blank _

theorem blank_of_tokens (none : tokens (symbols t) = []) : Blank t := by
  obtain ⟨blanks, r, rfl, blank, skipped⟩ := skipBlanks_symbols t
  cases r with
  | nil => simpa using blank
  | cons c r =>
    rw [tokens_cons skipped] at none
    cases none

/-- The first token of a text, if it was written to its end, is that of its first lexeme. -/
theorem tokens_uncons {token : Token} {ts : List Token} (front : tokens (symbols t) = token :: ts)
    (whole : token.Whole) : ∃ (l : Lexeme) (s : List Char), Begins [l] t s ∧ l.token = token ∧
      ts = tokens (symbols s) := by
  obtain ⟨blanks, r, rfl, blank, skipped⟩ := skipBlanks_symbols t
  cases r with
  | nil =>
    rw [tokens_nil skipped] at front
    cases front
  | cons c r =>
    rw [symbols_cons] at skipped
    rw [tokens_cons skipped] at front
    obtain ⟨first, rfl⟩ := List.cons.inj front
    have found : scanToken c (symbols r) = (token, (scanToken c (symbols r)).2) := by
      rw [← first]
    obtain ⟨l, w, s, eq, rest, spelled, rfl⟩ := scanToken_symbols found whole
    refine ⟨l, s, ?_, rfl, by rw [rest]⟩
    rw [eq]
    exact .cons blank spelled (.nil s)

end Hotplug.Json
