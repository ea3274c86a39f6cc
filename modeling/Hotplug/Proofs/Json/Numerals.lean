import Hotplug.Proofs.Json.Scan
/-!
Written numbers are read as one numeral, up to the character that ends it. Which number the
numeral stands for is not covered.
-/
namespace Hotplug.Json

open Hotplug.Text Hotplug.Decimal

structure Digits (cs : List Char) : Prop where
  nonempty : cs ≠ []
  all : ∀ c ∈ cs, c.isDigit = true

/-- Digits without a leading zero. -/
structure Whole (cs : List Char) : Prop extends Digits cs where
  plain : ∀ more, cs = '0' :: more → more = []

def fractionText : Option (List Char) → List Char
  | none => []
  | some digits => '.' :: digits

def exponentText : Option (Char × List Char) → List Char
  | none => []
  | some (sign, digits) => 'e' :: sign :: digits

structure Parts where
  whole : List Char
  fraction : Option (List Char) := none
  exponent : Option (Char × List Char) := none

structure Parts.Ok (p : Parts) : Prop where
  whole : Whole p.whole
  fraction : ∀ ds ∈ p.fraction, Digits ds
  exponent : ∀ e ∈ p.exponent, (e.1 = '+' ∨ e.1 = '-') ∧ Digits e.2

def Parts.text (p : Parts) : List Char :=
  p.whole ++ (fractionText p.fraction ++ exponentText p.exponent)

theorem digits_toDigits (n : Nat) : Digits (Nat.toDigits 10 n) where
  nonempty := Nat.toDigits_ne_nil
  all := fun _ mem => Nat.isDigit_of_mem_toDigits (by decide) (by decide) mem

theorem toDigits_head {n : Nat} (pos : 0 < n) (more : List Char) :
    Nat.toDigits 10 n ≠ '0' :: more := by
  -- the digits of `n / 10` come first, and that is positive too
  induction n using Nat.strongRecOn generalizing more with
  | ind n ih =>
    rw [Nat.toDigits_eq_if (by decide)]
    split
    · rename_i small
      have all : ∀ n < 10, 0 < n → n.digitChar ≠ '0' := by decide
      intro eq
      exact all n small pos (List.cons.inj eq).1
    · intro eq
      cases front : Nat.toDigits 10 (n / 10) with
      | nil => exact Nat.toDigits_ne_nil front
      | cons c cs =>
        rw [front, List.cons_append] at eq
        obtain ⟨rfl, -⟩ := List.cons.inj eq
        exact ih (n / 10) (by omega) (by omega) cs front

theorem whole_toDigits (n : Nat) : Whole (Nat.toDigits 10 n) where
  toDigits := digits_toDigits n
  plain := by
    intro more eq
    cases n with
    | zero =>
      rw [Nat.toDigits_zero] at eq
      exact (List.cons.inj eq).2.symm
    | succ n => exact absurd eq (toDigits_head (Nat.succ_pos n) more)

theorem ok_whole {cs : List Char} (whole : Whole cs) : Parts.Ok { whole := cs } :=
  ⟨whole, by simp, by simp⟩

theorem ok_fraction {cs ds : List Char} (whole : Whole cs) (fraction : Digits ds) :
    Parts.Ok { whole := cs, fraction := some ds } :=
  ⟨whole, by simpa using fraction, by simp⟩

def digit (c : Char) : Nat := c.toNat - 48

def NoDigit (rest : List Symbol) : Prop := ∀ c more, rest = .char c :: more → c.isDigit = false

def Stops (rest : List Symbol) : Prop :=
  ∀ c more, rest = .char c :: more → c.isDigit = false ∧ c ≠ '.' ∧ c ≠ 'e' ∧ c ≠ 'E'

variable {cs ds : List Char} {rest : List Symbol}

theorem Stops.noDigit (stops : Stops rest) : NoDigit rest := fun c more eq => (stops c more eq).1

theorem stops_nil : Stops [] := by
  intro c more eq
  cases eq

theorem stops_cons {c : Char} (digit : c.isDigit = false) (point : c ≠ '.') (lower : c ≠ 'e')
    (upper : c ≠ 'E') : Stops (.char c :: rest) := by
  intro d more eq
  obtain ⟨rfl, -⟩ : c = d ∧ rest = more := by simpa using eq
  exact ⟨digit, point, lower, upper⟩

theorem noDigit_cons {c : Char} (digit : c.isDigit = false) : NoDigit (.char c :: rest) := by
  intro d more eq
  obtain ⟨rfl, -⟩ : c = d ∧ rest = more := by simpa using eq
  exact digit

theorem digitValue_of_isDigit {c : Char} (h : c.isDigit = true) :
    digitValue? c = some (digit c) := by
  simp only [Char.isDigit, Bool.and_eq_true, decide_eq_true_eq] at h
  have low : 48 ≤ c.toNat := h.1
  have high : c.toNat ≤ 57 := h.2
  simp [digitValue?, digit, low, high]

theorem digitValue_of_not_isDigit {c : Char} (h : c.isDigit = false) : digitValue? c = none := by
  have out : ¬ (48 ≤ c.toNat ∧ c.toNat ≤ 57) := by
    intro inside
    have is : c.isDigit = true := by
      simp only [Char.isDigit, Bool.and_eq_true, decide_eq_true_eq]
      exact inside
    simp [is] at h
  simp [digitValue?, out]

namespace Numeral

theorem spanDigits_digits (all : ∀ c ∈ cs, c.isDigit = true) (stops : NoDigit rest)
    (taken : List Nat) :
    spanDigits (symbols cs ++ rest) taken = (taken.reverse ++ cs.map digit, rest) := by
  induction cs generalizing taken with
  | nil =>
    cases rest with
    | nil => simp [spanDigits]
    | cons symbol rest =>
      cases symbol with
      | stray size => simp [spanDigits]
      | char c => simp [spanDigits, digitValue_of_not_isDigit (stops c rest rfl)]
  | cons c cs ih =>
    have value := digitValue_of_isDigit (all c (by simp))
    have tail := ih (fun d mem => all d (List.mem_cons_of_mem c mem)) (digit c :: taken)
    simpa [spanDigits, value] using tail

theorem someDigits_digits (digits : Digits cs) (stops : NoDigit rest) :
    someDigits (symbols cs ++ rest) = .ok (cs.map digit, rest) := by
  have span := spanDigits_digits digits.all stops []
  cases cs with
  | nil => exact absurd rfl digits.nonempty
  | cons c cs =>
    simp only [symbols_cons, List.cons_append] at span ⊢
    simp [someDigits, span]

theorem scanWhole_whole (whole : Whole cs) (stops : NoDigit rest) :
    scanWhole (symbols cs ++ rest) = .ok (cs.map digit, rest) := by
  refine bind_ok.mpr ⟨(cs.map digit, rest), someDigits_digits whole.toDigits stops, ?_⟩
  cases cs with
  | nil => rfl
  | cons c cs =>
    cases cs with
    | nil => cases value : digit c <;> simp [value, pure, Except.pure]
    | cons d cs =>
      have other : c ≠ '0' := by
        rintro rfl
        simpa using whole.plain _ rfl
      have is := whole.all c (by simp)
      have nonzero : digit c ≠ 0 := by
        intro zero
        simp only [Char.isDigit, Bool.and_eq_true, decide_eq_true_eq] at is
        have low : 48 ≤ c.toNat := is.1
        have code : c.toNat = 48 := by
          unfold digit at zero
          omega
        have eq : c = Char.ofNat 48 := by rw [← code, Char.ofNat_toNat]
        exact other eq
      cases value : digit c with
      | zero => exact absurd value nonzero
      | succ n => simp [value, pure, Except.pure]

theorem scanFraction_text {fraction : Option (List Char)} (digits : ∀ ds ∈ fraction, Digits ds)
    (stops : ∀ c more, rest = .char c :: more → c.isDigit = false ∧ c ≠ '.') :
    scanFraction (symbols (fractionText fraction) ++ rest) =
      .ok ((fraction.getD []).map digit, rest) := by
  cases fraction with
  | none =>
    simp only [fractionText, symbols_nil, List.nil_append]
    unfold scanFraction
    split
    · exact absurd rfl (stops _ _ rfl).2
    · rfl
  | some ds =>
    have found := someDigits_digits (digits ds rfl) fun c more eq => (stops c more eq).1
    simpa [fractionText, scanFraction] using found

def exponentValue (exponent : Option (Char × List Char)) : Option Int :=
  exponent.map fun (sign, digits) => signed (decide (sign = '-')) (ofDigits (digits.map digit))

theorem scanExponent_text {exponent : Option (Char × List Char)}
    (shape : ∀ e ∈ exponent, (e.1 = '+' ∨ e.1 = '-') ∧ Digits e.2) (stops : Stops rest) :
    scanExponent (symbols (exponentText exponent) ++ rest) =
      .ok (exponentValue exponent, rest) := by
  cases exponent with
  | none => exact scanExponent_none fun c more eq => (stops c more eq).2.2
  | some e =>
    obtain ⟨sign, ds⟩ := e
    obtain ⟨known, digits⟩ := shape _ rfl
    have found := someDigits_digits digits stops.noDigit
    simp only [exponentText, symbols_cons, List.cons_append]
    rw [scanExponent_letter (.inl rfl)]
    rcases known with rfl | rfl
    · simp [exponentDigits, exponentSign, found, bind, Except.bind]
      rfl
    · simp [exponentDigits, exponentSign, found, bind, Except.bind]
      rfl

theorem fraction_stops (fraction : Option (List Char)) (exponent : Option (Char × List Char))
    (stops : NoDigit rest) :
    NoDigit (symbols (fractionText fraction) ++ (symbols (exponentText exponent) ++ rest)) := by
  cases fraction with
  | some ds => exact noDigit_cons (by decide)
  | none =>
    cases exponent with
    | some e => exact noDigit_cons (by decide)
    | none => exact stops

theorem exponent_stops (exponent : Option (Char × List Char)) (stops : Stops rest) :
    ∀ c more, symbols (exponentText exponent) ++ rest = .char c :: more →
      c.isDigit = false ∧ c ≠ '.' := by
  intro c more eq
  cases exponent with
  | some e =>
    obtain ⟨rfl, -⟩ : 'e' = c ∧ _ := by simpa [exponentText] using eq
    decide
  | none => exact ⟨(stops c more eq).1, (stops c more eq).2.1⟩

def ofParts (negative : Bool) (p : Parts) : Numeral :=
  ⟨negative, p.whole.map digit, (p.fraction.getD []).map digit, exponentValue p.exponent⟩

theorem scan_text {p : Parts} (ok : p.Ok) (negative : Bool) (stops : Stops rest) :
    scan negative (symbols p.text ++ rest) = .ok (ofParts negative p, rest) := by
  have wholeFound := scanWhole_whole ok.whole
    (fraction_stops p.fraction p.exponent stops.noDigit)
  have fractionFound := scanFraction_text ok.fraction (exponent_stops p.exponent stops)
  simp only [Parts.text, symbols_append, List.append_assoc]
  refine bind_ok.mpr ⟨_, wholeFound, bind_ok.mpr ⟨_, fractionFound, bind_ok.mpr ?_⟩⟩
  exact ⟨_, scanExponent_text ok.exponent stops, rfl⟩

end Numeral

theorem zeros_digits (n : Nat) : ∀ c ∈ List.replicate n '0', c.isDigit = true := by
  intro c mem
  rw [(List.mem_replicate.mp mem).2]
  decide

/-- Leading digits of a positive number, and perhaps more digits. -/
theorem whole_front {n k : Nat} {ds : List Char} (pos : 0 < n) (some : 0 < k)
    (all : ∀ c ∈ ds, c.isDigit = true) : Whole ((Nat.toDigits 10 n).take k ++ ds) := by
  have front := digits_toDigits n
  cases digits : Nat.toDigits 10 n with
  | nil => exact absurd digits Nat.toDigits_ne_nil
  | cons c cs =>
    have other : c ≠ '0' := by
      rintro rfl
      exact toDigits_head pos cs digits
    obtain ⟨k, rfl⟩ : ∃ m, k = m + 1 := ⟨k - 1, by omega⟩
    rw [digits] at front
    refine ⟨⟨by simp, ?_⟩, ?_⟩
    · intro d mem
      rcases List.mem_append.mp mem with left | right
      · exact front.all d (List.mem_of_mem_take left)
      · exact all d right
    · intro more eq
      simp only [List.take_succ_cons, List.cons_append, List.cons.injEq] at eq
      exact absurd eq.1 other

theorem whole_take {n k : Nat} (pos : 0 < n) (some : 0 < k) :
    Whole ((Nat.toDigits 10 n).take k) := by
  have whole : Whole ((Nat.toDigits 10 n).take k ++ []) := whole_front pos some (by simp)
  rwa [List.append_nil] at whole

theorem whole_zero : Whole ['0'] where
  nonempty := by simp
  all := by simp
  plain := by simp

theorem drop_digits {n k : Nat} (left : k < (Nat.toDigits 10 n).length) :
    Digits ((Nat.toDigits 10 n).drop k) where
  nonempty := by simpa [List.drop_eq_nil_iff] using left
  all := fun c mem => (digits_toDigits n).all c (List.mem_of_mem_drop mem)

def fractionOf : List Char → Option (List Char)
  | [] => none
  | c :: cs => some (c :: cs)

theorem fractionOf_getD (ds : List Char) : (fractionOf ds).getD [] = ds := by
  cases ds <;> rfl

def realParts (x : Binary64) : Parts :=
  let d := x.shortest
  let digits := Nat.toDigits 10 d.digits
  let point : Int := digits.length + d.exponent
  let zeros (n : Int) : List Char := List.replicate n.toNat '0'
  if d.digits = 0 then { whole := ['0'], fraction := some ['0'] }
  else if 0 ≤ d.exponent ∧ point ≤ 16 then
    { whole := digits ++ zeros d.exponent, fraction := some ['0'] }
  else if 0 < point ∧ point ≤ 16 then
    { whole := digits.take point.toNat, fraction := some (digits.drop point.toNat) }
  else if -5 < point ∧ point ≤ 0 then
    { whole := ['0'], fraction := some (zeros (-point) ++ digits) }
  else
    { whole := digits.take 1
      fraction := fractionOf (digits.drop 1)
      exponent := some (if point - 1 < 0 then '-' else '+', Nat.toDigits 10 (point - 1).natAbs) }

theorem realParts_ok (x : Binary64) : (realParts x).Ok := by
  unfold realParts
  have point_zero : Digits ['0'] := whole_zero.toDigits
  simp only
  split
  · exact ok_fraction whole_zero point_zero
  · rename_i nonzero
    have pos : 0 < x.shortest.digits := Nat.pos_of_ne_zero nonzero
    have length : 0 < (Nat.toDigits 10 x.shortest.digits).length := Nat.length_toDigits_pos
    split
    · have whole := whole_front pos length (zeros_digits x.shortest.exponent.toNat)
      rw [List.take_length] at whole
      exact ok_fraction whole point_zero
    · split
      · exact ok_fraction (whole_take pos (by omega)) (drop_digits (by omega))
      · split
        · refine ok_fraction whole_zero ⟨by simp [Nat.toDigits_ne_nil], ?_⟩
          intro c mem
          rcases List.mem_append.mp mem with zero | digit
          · exact zeros_digits _ c zero
          · exact (digits_toDigits _).all c digit
        · refine ⟨whole_take pos (by decide), ?_, ?_⟩
          · intro ds mem
            cases rest : (Nat.toDigits 10 x.shortest.digits).drop 1 with
            | nil => simp [rest, fractionOf] at mem
            | cons c cs =>
              obtain rfl : c :: cs = ds := by simpa [rest, fractionOf] using mem
              rw [← rest]
              refine drop_digits ?_
              rw [← Nat.not_le, ← List.drop_eq_nil_iff, rest]
              simp
          · rintro e ⟨⟩
            refine ⟨?_, digits_toDigits _⟩
            simp only
            split <;> simp

theorem real_text (x : Binary64) : x.text.toList =
    if x.negative then '-' :: (realParts x).text else (realParts x).text := by
  unfold Binary64.text
  simp only [String.toList_ofList]
  have signed {magnitude : List Char} (same : magnitude = (realParts x).text) :
      (if x.negative then '-' :: magnitude else magnitude) =
        if x.negative then '-' :: (realParts x).text else (realParts x).text := by
    rw [same]
  apply signed
  have point : "0.0".toList = ['0', '.', '0'] := by decide
  have front : "0.".toList = ['0', '.'] := by decide
  have tail : ".0".toList = ['.', '0'] := by decide
  unfold realParts Parts.text
  simp only [point, front, tail]
  split
  · rfl
  · split
    · simp [fractionText, exponentText]
    · split
      · simp [fractionText, exponentText]
      · split
        · simp [fractionText, exponentText]
        · cases (Nat.toDigits 10 x.shortest.digits).drop 1 with
          | nil => simp [fractionOf, fractionText, exponentText]
          | cons c cs => simp [fractionOf, fractionText, exponentText]

def Number.parts : Number → Bool × Parts
  | .int n => (decide (n < 0), { whole := Nat.toDigits 10 n.natAbs })
  | .real x => (x.negative, realParts x)

theorem Number.parts_ok (n : Number) : n.parts.2.Ok := by
  cases n with
  | int n => exact ok_whole (whole_toDigits n.natAbs)
  | real x => exact realParts_ok x

theorem Number.render_eq (n : Number) :
    n.render = if n.parts.1 then '-' :: n.parts.2.text else n.parts.2.text := by
  cases n with
  | int n =>
    cases n with
    | ofNat n =>
      have text : (Number.int (Int.ofNat n)).render = Nat.toDigits 10 n := Nat.toList_repr
      rw [text]
      simp [parts, Parts.text, fractionText, exponentText]
    | negSucc n =>
      have text : (Number.int (Int.negSucc n)).render = ("-" ++ Nat.repr (n + 1)).toList := rfl
      rw [text, String.toList_append, Nat.toList_repr]
      simp [parts, Parts.text, fractionText, exponentText, Int.negSucc_lt_zero]
  | real x => exact real_text x

end Hotplug.Json
