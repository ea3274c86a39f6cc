import Hotplug.Address.Parse
import Hotplug.Proofs.Json.Numerals
import Mathlib.Algebra.Group.Nat.Defs
import Mathlib.Data.List.TakeWhile
/-!
Addresses and networks are read as they were written, in either style of reading: every number,
every list of groups with its longest gap, and the mapped form. Which other texts are read, and
as what, is not covered.
-/
namespace Hotplug.Address

open Hotplug.Text

variable {radix most bound n : Nat} {leading : Bool} {style : Style} {rest s : List Char}

def Stops (radix : Nat) (rest : List Char) : Prop :=
  ∀ c more, rest = c :: more → digitBelow? radix c = none

theorem stops_nil : Stops radix [] := by
  intro c more eq
  cases eq

theorem stops_cons {c : Char} (h : digitBelow? radix c = none) : Stops radix (c :: rest) := by
  intro d more eq
  obtain ⟨rfl, -⟩ := List.cons.inj eq
  exact h

theorem digitBelow_digitChar (hex : radix ≤ 16) (small : n < radix) :
    digitBelow? radix n.digitChar = some n := by
  have all : ∀ n < 16, hexValue? n.digitChar = some n := by decide
  rw [digitBelow?, all n (by omega)]
  simp [small]

/-- The digits that a number is written with. -/
structure WrittenAs (radix n : Nat) (ds : List Nat) : Prop where
  below : ∀ d ∈ ds, d < radix
  text : Nat.toDigits radix n = ds.map Nat.digitChar
  value : valueOf radix ds = n

theorem exists_digits (two : 1 < radix) (n : Nat) : ∃ ds, WrittenAs radix n ds := by
  induction n using Nat.strongRecOn with
  | ind n ih =>
    have cut := Nat.toDigits_eq_if two (n := n)
    split at cut
    · rename_i small
      exact ⟨[n], by simpa using small, cut, by simp [valueOf]⟩
    · rename_i large
      obtain ⟨ds, below, text, value⟩ := ih (n / radix) (Nat.div_lt_self (by omega) two)
      have last : n % radix < radix := Nat.mod_lt n (by omega)
      refine ⟨ds ++ [n % radix], ?_, by simp [cut, text], ?_⟩
      · intro d mem
        rcases List.mem_append.mp mem with front | final
        · exact below d front
        · rwa [List.mem_singleton.mp final]
      · unfold valueOf at value ⊢
        rw [List.foldl_append, value]
        exact Nat.div_add_mod' n radix

section
variable {ds : List Nat}

theorem spanDigits_append (hex : radix ≤ 16) (below : ∀ d ∈ ds, d < radix)
    (stops : Stops radix rest) :
    spanDigits radix (ds.map Nat.digitChar ++ rest) = (ds, rest) := by
  have all : ∀ c ∈ ds.map Nat.digitChar, (digitBelow? radix c).isSome = true := by
    intro c mem
    obtain ⟨d, inside, rfl⟩ := List.mem_map.mp mem
    rw [digitBelow_digitChar hex (below d inside)]
    rfl
  have stop : ∀ c more, rest = c :: more → (digitBelow? radix c).isSome = false := by
    intro c more eq
    rw [stops c more eq]
    rfl
  have takes : (ds.map Nat.digitChar ++ rest).takeWhile (fun c => (digitBelow? radix c).isSome) =
      ds.map Nat.digitChar := by
    rw [List.takeWhile_append_of_pos all]
    cases rest with
    | nil => simp
    | cons c more => simp [stop c more rfl]
  have drops : (ds.map Nat.digitChar ++ rest).dropWhile (fun c => (digitBelow? radix c).isSome) =
      rest := by
    rw [List.dropWhile_append_of_pos all]
    cases rest with
    | nil => rfl
    | cons c more => simp [stop c more rfl]
  have back : (ds.map Nat.digitChar).filterMap (digitBelow? radix) = ds := by
    rw [List.filterMap_map]
    calc ds.filterMap (digitBelow? radix ∘ Nat.digitChar)
      _ = ds.filterMap some :=
        List.filterMap_congr fun d mem => digitBelow_digitChar hex (below d mem)
      _ = ds := List.filterMap_some
  simp only [spanDigits, takes, drops, back]

/-- A number of several digits does not begin with a zero. -/
theorem WrittenAs.head (written : WrittenAs 10 n ds) (long : 1 < ds.length) :
    ds.head? ≠ some 0 := by
  intro zero
  cases ds with
  | nil => cases zero
  | cons d ds =>
    obtain rfl : d = 0 := Option.some.inj zero
    have whole := (Json.whole_toDigits n).plain _ written.text
    rw [List.map_eq_nil_iff] at whole
    simp [whole] at long

end

theorem readNumber_digits (two : 1 < radix) (hex : radix ≤ 16)
    (zeros : leading = true ∨ radix = 10) (few : n < radix ^ most) (some_digits : 0 < most)
    (small : n < bound) (stops : Stops radix rest) :
    readNumber radix most bound leading (Nat.toDigits radix n ++ rest) = some (n, rest) := by
  obtain ⟨ds, written⟩ := exists_digits two n
  have length : (Nat.toDigits radix n).length = ds.length := by simp [written.text]
  have fits : ds.length ≤ most := by
    rw [← length]
    exact (Nat.length_toDigits_le_iff two some_digits).mpr few
  have present : ds.isEmpty = false := by
    have positive : 0 < (Nat.toDigits radix n).length := Nat.length_toDigits_pos
    rw [List.isEmpty_eq_false_iff, ← List.length_pos_iff]
    omega
  have unpadded : (!leading && decide (1 < ds.length) && ds.head? == some 0) = false := by
    rcases zeros with rfl | rfl
    · rfl
    · by_cases long : 1 < ds.length
      · simp [written.head long]
      · simp [long]
  have span := spanDigits_append hex written.below stops
  rw [← written.text] at span
  simp only [readNumber, span, written.value, present, unpadded]
  simp [fits, small]

theorem readNumber_none (stops : Stops radix s) :
    readNumber radix most bound leading s = none := by
  have span : spanDigits radix s = ([], s) := by
    cases s with
    | nil => rfl
    | cons c s => simp [spanDigits, stops c s rfl]
  simp [readNumber, span]

theorem readOctet_write (o : UInt8) (stops : Stops 10 rest) :
    readOctet style (writeDecimal o.toNat ++ rest) = some (o, rest) := by
  have small : o.toNat < 256 := o.toNat_lt
  have number : readNumber 10 3 256 style.leadingZeros (Nat.toDigits 10 o.toNat ++ rest) =
      some (o.toNat, rest) :=
    readNumber_digits (by decide) (by decide) (.inr rfl) (by omega) (by decide) small stops
  simp [readOctet, writeDecimal, number]

theorem readGiven_same (c : Char) (s : List Char) : readGiven c (c :: s) = some s := by
  simp [readGiven]

theorem stops_dot : Stops 10 ('.' :: s) := stops_cons (by decide)

variable (style) in
theorem readV4_write (octets : Vector UInt8 4) (stops : Stops 10 rest) :
    readV4 style (writeOctets octets.toList ++ rest) = some (octets, rest) := by
  obtain ⟨⟨list⟩, size⟩ := octets
  match list, size with
  | [a, b, c, d], _ =>
    simp only [writeOctets, Vector.toList_mk, List.map_cons, List.map_nil, joinPieces,
      List.append_assoc, List.cons_append]
    simp [readV4, readOctet_write _ stops_dot, readOctet_write _ stops, readGiven_same]

theorem readV4_none (dotless : ∀ more, (spanDigits 10 s).2 ≠ '.' :: more) :
    readV4 style s = none := by
  have rest {o : UInt8} {t : List Char} (read : readOctet style s = some (o, t)) :
      t = (spanDigits 10 s).2 := by
    obtain ⟨⟨n, u⟩, number, same⟩ := Option.map_eq_some_iff.mp read
    obtain ⟨-, rfl⟩ := Prod.mk.inj same
    simp only [readNumber] at number
    split at number
    · cases number
    · obtain ⟨-, rfl⟩ := Prod.mk.inj (Option.some.inj number)
      rfl
  unfold readV4
  cases read : readOctet style s with
  | none => rfl
  | some found =>
    obtain ⟨o, t⟩ := found
    have no_dot : readGiven '.' t = none := by
      cases t with
      | nil => rfl
      | cons c more =>
        have other : '.' ≠ c := by
          intro dot
          subst dot
          exact dotless more (rest read).symm
        simp [readGiven, other]
    simp [no_dot]

theorem Stops.fewer (stops : Stops 16 rest) : Stops 10 rest := by
  intro c more eq
  have none_here := stops c more eq
  simp only [digitBelow?, Option.filter_eq_none_iff] at none_here ⊢
  intro d value
  have large := none_here d value
  simp only [decide_eq_true_eq] at large ⊢
  omega

/-- What may stand behind a group: neither a digit nor a dot. -/
structure GroupEnd (rest : List Char) : Prop where
  stops : Stops 16 rest
  dotless : ∀ more, rest ≠ '.' :: more

theorem groupEnd_nil : GroupEnd [] := ⟨stops_nil, by simp⟩

theorem groupEnd_cons {c : Char} (digit : digitBelow? 16 c = none) (dot : c ≠ '.') :
    GroupEnd (c :: rest) :=
  ⟨stops_cons digit, by simp [dot]⟩

theorem groupEnd_colon : GroupEnd (':' :: rest) := groupEnd_cons (by decide) (by decide)

theorem readV4_end (ends : GroupEnd s) : readV4 style s = none := by
  apply readV4_none
  have span : (spanDigits 10 s).2 = s := by
    cases s with
    | nil => rfl
    | cons c s => simp [spanDigits, ends.stops.fewer c s rfl]
  rw [span]
  exact ends.dotless

theorem not_dot_of_group (g : UInt16) : ∀ c ∈ writeGroup g, c ≠ '.' := by
  obtain ⟨ds, written⟩ := exists_digits (by decide : 1 < 16) g.toNat
  intro c mem
  rw [writeGroup, written.text] at mem
  obtain ⟨d, inside, rfl⟩ := List.mem_map.mp mem
  have all : ∀ d < 16, d.digitChar ≠ '.' := by decide
  exact all d (written.below d inside)

theorem readV4_group (g : UInt16) (ends : GroupEnd rest) :
    readV4 style (writeGroup g ++ rest) = none := by
  apply readV4_none
  intro more
  simp only [spanDigits, List.dropWhile_append]
  split
  · cases rest with
    | nil => simp
    | cons c rest =>
      have stop := ends.stops.fewer c rest rfl
      simpa [stop] using ends.dotless more
  · rename_i left
    cases front : (writeGroup g).dropWhile fun c => (digitBelow? 10 c).isSome with
    | nil => simp [front] at left
    | cons c cs =>
      have mem : c ∈ writeGroup g := by
        have sub := List.dropWhile_sublist (fun c => (digitBelow? 10 c).isSome) (l := writeGroup g)
        rw [front] at sub
        exact sub.subset (List.mem_cons_self ..)
      intro dot
      exact not_dot_of_group g c mem (List.cons.inj dot).1

theorem readNumber_group (g : UInt16) (ends : GroupEnd rest) :
    readNumber 16 4 0x10000 true (writeGroup g ++ rest) = some (g.toNat, rest) := by
  have small : g.toNat < 65536 := g.toNat_lt
  exact readNumber_digits (by decide) (by decide) (.inl rfl) (by omega) (by decide) small ends.stops

variable {left : Nat} {done : List UInt16}

theorem readGroups_first (g : UInt16) (ends : GroupEnd rest) :
    readGroups style (left + 1) true (writeGroup g ++ rest) done =
      readGroups style left false rest (g :: done) := by
  simp only [readGroups, readV4_group g ends, readNumber_group g ends, ite_self, if_true]
  simp

theorem readGroups_next (g : UInt16) (ends : GroupEnd rest) :
    readGroups style (left + 1) false (':' :: (writeGroup g ++ rest)) done =
      readGroups style left false rest (g :: done) := by
  simp only [readGroups, readGiven_same, readV4_group g ends, readNumber_group g ends, ite_self,
    Bool.false_eq_true, if_false]
  simp

def furtherGroups (gs : List UInt16) : List Char := gs.flatMap fun g => ':' :: writeGroup g

theorem writeGroups_cons (g : UInt16) (gs : List UInt16) :
    writeGroups (g :: gs) = writeGroup g ++ furtherGroups gs := by
  induction gs generalizing g with
  | nil => simp [writeGroups, joinPieces, furtherGroups]
  | cons h gs ih =>
    have tail := ih h
    simp only [writeGroups, List.map_cons] at tail
    simp [writeGroups, joinPieces, furtherGroups, tail]

theorem groupEnd_further (gs : List UInt16) (ends : GroupEnd rest) :
    GroupEnd (furtherGroups gs ++ rest) := by
  cases gs with
  | nil => exact ends
  | cons g gs => exact groupEnd_colon

theorem readGroups_further (gs : List UInt16) (ends : GroupEnd rest) (done : List UInt16) :
    readGroups style (gs.length + left) false (furtherGroups gs ++ rest) done =
      readGroups style left false rest (gs.reverse ++ done) := by
  induction gs generalizing done with
  | nil => simp [furtherGroups]
  | cons g gs ih =>
    have room : (g :: gs).length + left = gs.length + left + 1 := by
      rw [List.length_cons]
      omega
    have text : furtherGroups (g :: gs) ++ rest =
        ':' :: (writeGroup g ++ (furtherGroups gs ++ rest)) := by
      simp [furtherGroups]
    rw [room, text, readGroups_next g (groupEnd_further gs ends), ih]
    simp

structure ListEnd (rest : List Char) : Prop extends GroupEnd rest where
  colon : ∀ more, rest = ':' :: more → GroupEnd more

theorem readGroups_none (ends : ListEnd rest) (first : Bool) :
    readGroups style left first rest done = (done.reverse, false, rest) := by
  cases left with
  | zero => rfl
  | succ left =>
    have number (s : List Char) (stop : GroupEnd s) :
        readNumber 16 4 0x10000 true s = none := readNumber_none stop.stops
    cases first with
    | true =>
      simp [readGroups, readV4_end ends.toGroupEnd, number rest ends.toGroupEnd]
    | false =>
      cases rest with
      | nil => simp [readGroups, readGiven]
      | cons c more =>
        by_cases colon : ':' = c
        · subst colon
          have stop := ends.colon more rfl
          simp [readGroups, readGiven, readV4_end stop, number more stop]
        · simp [readGroups, readGiven, colon]

variable (style) in
/-- Written groups are read up to their end, if there is room for them. -/
theorem readGroups_write (gs : List UInt16) (room : gs.length ≤ left) (ends : ListEnd rest) :
    readGroups style left true (writeGroups gs ++ rest) [] = (gs, false, rest) := by
  cases gs with
  | nil =>
    have empty : writeGroups [] = [] := rfl
    rw [empty, List.nil_append, readGroups_none ends]
    rfl
  | cons g gs =>
    obtain ⟨spare, rfl⟩ : ∃ spare, left = gs.length + spare + 1 :=
      ⟨left - gs.length - 1, by rw [List.length_cons] at room; omega⟩
    rw [writeGroups_cons, List.append_assoc,
      readGroups_first g (groupEnd_further gs ends.toGroupEnd),
      readGroups_further gs ends.toGroupEnd, readGroups_none ends]
    simp

theorem take_zeroRun (groups : List UInt16) :
    groups.take (zeroRun groups) = List.replicate (zeroRun groups) 0 := by
  have front : groups.takeWhile (· == 0) = groups.take (zeroRun groups) :=
    List.prefix_iff_eq_take.mp (List.takeWhile_prefix _)
  rw [← front]
  apply List.eq_replicate_of_mem
  intro g mem
  simpa using List.mem_takeWhile_imp mem

/-- The longest gap is a run of zeros between what is in front of it and what follows. -/
theorem longestGap_spec (groups : List UInt16) :
    groups = groups.take (longestGap groups).1 ++ List.replicate (longestGap groups).2 0 ++
      groups.drop ((longestGap groups).1 + (longestGap groups).2) := by
  induction groups with
  | nil => rfl
  | cons g groups ih =>
    simp only [longestGap]
    split
    · -- the run at the front is the longest one
      simp only [List.take_zero, List.nil_append, Nat.zero_add, ← take_zeroRun,
        List.take_append_drop]
    · have shift : (longestGap groups).1 + 1 + (longestGap groups).2 =
          (longestGap groups).1 + (longestGap groups).2 + 1 := by omega
      simp only [shift, List.take_succ_cons, List.drop_succ_cons, List.cons_append]
      rw [← ih]

theorem v6Of_toList (groups : Vector UInt16 8) : v6Of? groups.toList = some groups := by
  obtain ⟨⟨list⟩, size⟩ := groups
  have eight : list.length = 8 := by simpa using size
  simp [v6Of?, eight]

theorem listEnd_gap : ListEnd (':' :: ':' :: s) where
  toGroupEnd := groupEnd_colon
  colon := by
    intro more eq
    obtain rfl := (List.cons.inj eq).2
    exact groupEnd_colon

section
variable {groups head tail : List UInt16} {inV4 : Bool}

theorem readV6_full (read : readGroups style 8 true s [] = (groups, inV4, rest))
    (full : groups.length = 8) : readV6 style s = (v6Of? groups).map (·, rest) := by
  simp only [readV6, read, full, if_true]
  cases v6Of? groups <;> rfl

theorem readV6_gap {t : List Char}
    (front : readGroups style 8 true s [] = (head, false, ':' :: ':' :: t))
    (short : head.length ≠ 8)
    (back : readGroups style (if style.emptyGap then 8 - head.length else 7 - head.length) true
      t [] = (tail, inV4, rest)) :
    readV6 style s = (v6Of? (head ++ List.replicate (8 - head.length - tail.length) 0 ++ tail)).map
      (·, rest) := by
  simp only [readV6, front, short, if_false, Bool.false_eq_true, readGiven_same, back,
    Option.bind_eq_bind, Option.bind_some]
  cases v6Of? (head ++ List.replicate (8 - head.length - tail.length) 0 ++ tail) <;> rfl

end

theorem pair_halves (a : UInt16) : pair (a >>> 8).toUInt8 a.toUInt8 = a := by
  apply UInt16.toNat_inj.mp
  have small := a.toNat_lt
  simp only [pair, UInt16.toNat_ofNat', UInt16.toNat_toUInt8, UInt16.toNat_shiftRight]
  have shift : a.toNat >>> ((8 : UInt16).toNat % 16) = a.toNat / 256 := by
    rw [Nat.shiftRight_eq_div_pow]
    rfl
  rw [shift]
  omega

variable (style) in
theorem readGroups_mapped (a b : UInt16) (stops : Stops 10 rest) (left : Nat) :
    readGroups style (left + 3) true ("ffff:".toList ++ (writeOctets
      [(a >>> 8).toUInt8, a.toUInt8, (b >>> 8).toUInt8, b.toUInt8] ++ rest)) [] =
      ([0xFFFF, a, b], true, rest) := by
  have text : "ffff:".toList = writeGroup 0xFFFF ++ [':'] := by decide
  have octets := readV4_write style
    #v[(a >>> 8).toUInt8, a.toUInt8, (b >>> 8).toUInt8, b.toUInt8] stops
  rw [text, List.append_assoc, List.singleton_append, readGroups_first 0xFFFF groupEnd_colon]
  simp only [Vector.toList_mk] at octets
  simp [readGroups, readGiven, octets, pair_halves]

theorem eq_of_mapped {groups : List UInt16} {octets : List UInt8}
    (mapped : mapped? groups = some octets) : ∃ a b, groups = [0, 0, 0, 0, 0, 0xFFFF, a, b] ∧
      octets = [(a >>> 8).toUInt8, a.toUInt8, (b >>> 8).toUInt8, b.toUInt8] := by
  unfold mapped? at mapped
  split at mapped
  · rename_i a b
    exact ⟨a, b, rfl, (Option.some.inj mapped).symm⟩
  · cases mapped

variable (style) in
theorem readV6_write (groups : Vector UInt16 8) (ends : ListEnd rest) :
    readV6 style (writeV6 groups.toList ++ rest) = some (groups, rest) := by
  have size : groups.toList.length = 8 := Vector.length_toList
  have whole := v6Of_toList groups
  generalize groups.toList = gs at size whole
  unfold writeV6
  cases mapped : mapped? gs with
  | some octets =>
    obtain ⟨a, b, rfl, rfl⟩ := eq_of_mapped mapped
    have front : readGroups style 8 true (':' :: ':' :: ("ffff:".toList ++ (writeOctets
        [(a >>> 8).toUInt8, a.toUInt8, (b >>> 8).toUInt8, b.toUInt8] ++ rest))) [] =
        ([], false, _) := readGroups_none listEnd_gap true
    have back := readGroups_mapped style a b ends.stops.fewer
      (if style.emptyGap then 5 else 4)
    have room : (if style.emptyGap then 5 else 4) + 3 =
        if style.emptyGap then 8 - ([] : List UInt16).length else 7 - ([] : List UInt16).length := by
      split <;> rfl
    rw [room] at back
    have text : "::ffff:".toList = ':' :: ':' :: "ffff:".toList := by decide
    simp only [text, List.cons_append, List.append_assoc]
    rw [readV6_gap front (by simp) back]
    have filled : [] ++ List.replicate (8 - ([] : List UInt16).length -
        [0xFFFF, a, b].length) 0 ++ [0xFFFF, a, b] = [0, 0, 0, 0, 0, 0xFFFF, a, b] := rfl
    rw [filled, whole]
    rfl
  | none =>
    have cut := longestGap_spec gs
    generalize longestGap gs = gap at cut
    obtain ⟨start, length⟩ := gap
    dsimp only at cut ⊢
    split
    · rename_i wide
      have lengths := congrArg List.length cut
      simp only [List.length_append, List.length_replicate] at lengths
      have front := readGroups_write style (gs.take start)
        (by omega : (gs.take start).length ≤ 8)
        (listEnd_gap (s := writeGroups (gs.drop (start + length)) ++ rest))
      have room : (gs.drop (start + length)).length ≤
          if style.emptyGap then 8 - (gs.take start).length else 7 - (gs.take start).length := by
        split <;> omega
      have back := readGroups_write style (gs.drop (start + length)) room ends
      have dots : "::".toList = [':', ':'] := by decide
      have zeros : 8 - (gs.take start).length - (gs.drop (start + length)).length = length := by
        omega
      simp only [dots, List.append_assoc, List.cons_append, List.nil_append]
      rw [readV6_gap front (by omega) back, zeros, ← cut, whole]
      rfl
    · have read := readGroups_write style gs (by omega : gs.length ≤ 8) ends
      rw [readV6_full read size, whole]
      rfl

variable (style) in
/-- No IPv6 address is read as the beginning of an IPv4 address. -/
theorem readV4_v6 (groups : Vector UInt16 8) (rest : List Char) :
    readV4 style (writeV6 groups.toList ++ rest) = none := by
  have size : groups.toList.length = 8 := Vector.length_toList
  generalize groups.toList = gs at size
  have dots (s : List Char) : readV4 style (':' :: s) = none := readV4_end groupEnd_colon
  have double : "::".toList = [':', ':'] := by decide
  unfold writeV6
  cases mapped : mapped? gs with
  | some octets =>
    have text : "::ffff:".toList = ':' :: ':' :: "ffff:".toList := by decide
    simp only [text, List.cons_append]
    exact dots _
  | none =>
    generalize longestGap gs = gap
    obtain ⟨start, length⟩ := gap
    dsimp only
    split
    · cases front : gs.take start with
      | nil =>
        simp only [writeGroups, List.map_nil, joinPieces, double, List.nil_append,
          List.cons_append]
        exact dots _
      | cons g more =>
        rw [writeGroups_cons, double]
        simp only [List.append_assoc, List.cons_append]
        exact readV4_group g (groupEnd_further more groupEnd_colon)
    · match gs, size with
      | g :: h :: more, _ =>
        rw [writeGroups_cons, List.append_assoc]
        apply readV4_group g
        exact groupEnd_colon

theorem listEnd_nil : ListEnd [] := ⟨groupEnd_nil, by simp⟩

theorem listEnd_slash : ListEnd ('/' :: s) :=
  ⟨groupEnd_cons (by decide) (by decide), by simp⟩

theorem Ip.ofText_text (ip : Ip) : Ip.ofText? ip.text = some ip := by
  cases ip with
  | v4 octets =>
    have read := readV4_write .plain octets stops_nil
    rw [List.append_nil] at read
    simp [Ip.ofText?, Ip.text, Ip.write, Ip.ofChars?, read]
  | v6 groups =>
    have other := readV4_v6 .plain groups []
    have read := readV6_write .plain groups listEnd_nil
    rw [List.append_nil] at other read
    simp [Ip.ofText?, Ip.text, Ip.write, Ip.ofChars?, other, read]

theorem readNumber_length {most bound : Nat} (few : n < 10 ^ most) (positive : 0 < most)
    (small : n < bound) : readNumber 10 most bound true (writeDecimal n) = some (n, []) := by
  have read : readNumber 10 most bound true (writeDecimal n ++ []) = some (n, []) :=
    readNumber_digits (by decide) (by decide) (.inl rfl) few positive small stops_nil
  rwa [List.append_nil] at read

theorem Network.ofText_text (network : Network) : Network.ofText? network.text = some network := by
  obtain ⟨address, length, within⟩ := network
  cases address with
  | v4 octets =>
    have short : length ≤ 32 := within
    have slash : Stops 10 ('/' :: writeDecimal length) := stops_cons (by decide)
    have front := readV4_write .network octets slash
    have back : readNumber 10 2 33 true (writeDecimal length) = some (length, []) :=
      readNumber_length (by omega) (by decide) (by omega)
    simp [Network.ofText?, Network.text, Ip.write, Network.ofChars?, readV4Network, front,
      readGiven_same, back, short]
  | v6 groups =>
    have short : length ≤ 128 := within
    have other := readV4_v6 .network groups ('/' :: writeDecimal length)
    have front := readV6_write .network groups
      (listEnd_slash (s := writeDecimal length))
    have back : readNumber 10 3 129 true (writeDecimal length) = some (length, []) :=
      readNumber_length (by omega) (by decide) (by omega)
    simp [Network.ofText?, Network.text, Ip.write, Network.ofChars?, readV4Network, readV6Network,
      other, front, readGiven_same, back, short]

end Hotplug.Address
