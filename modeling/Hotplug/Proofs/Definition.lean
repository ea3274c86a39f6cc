import Hotplug.Definition
import Hotplug.Proofs.Json.Refused
import Hotplug.Proofs.Json.Whole
import Hotplug.Proofs.Text.Pieces
/-!
The configuration that a plugin is given. It is there for the definitions with a name whose
configuration is an object that can be read, it keeps what the object says, and it carries a name.
Numbers other than integers are not covered: written out they may be read as their neighbours.
-/
namespace Hotplug.Definition

open Hotplug.Json Hotplug.Text

variable {d : Definition} {ms told : Members} {name config out key : String}

theorem hasName_iff : hasName ms = true ↔
    ∃ own, ms.lookup "name" = some (.string own) ∧ own ≠ "" := by
  unfold hasName Members.get?
  split
  · rename_i own value
    simp [value]
  · rename_i unusable
    constructor
    · intro absurd
      cases absurd
    · rintro ⟨own, value, -⟩
      exact (unusable own value).elim

theorem hasName_mem (own : hasName ms = true) : "name" ∈ ms.map (·.1) := by
  obtain ⟨text, value, -⟩ := hasName_iff.mp own
  by_contra absent
  rw [lookup_absent absent] at value
  cases value

theorem withName_keys (ms : Members) (name : String) : (withName ms name).map (·.1) =
    ms.map (·.1) ++ (if "name" ∈ ms.map (·.1) then [] else ["name"]) := by
  unfold withName
  split
  · rename_i own
    rw [if_pos (hasName_mem own), List.append_nil]
  · rw [insert_keys]
    split
    · rw [List.append_nil]
    · rfl

theorem withName_lookup (other : key ≠ "name") :
    (withName ms name).lookup key = ms.lookup key := by
  unfold withName
  split
  · rfl
  · rw [insert_lookup, if_neg other]

/-- The name that a configuration has: its own, if that is a text and not empty, or else the
definition's. -/
def nameOf (told : Members) (name : String) : String :=
  match last? told "name" with
  | some (.string own) => if own = "" then name else own
  | _ => name

theorem withName_name (told : Members) (name : String) :
    (withName (merged told) name).lookup "name" = some (.string (nameOf told name)) := by
  by_cases own : hasName (merged told) = true
  · obtain ⟨text, value, present⟩ := hasName_iff.mp own
    have given : last? told "name" = some (.string text) := (merged_lookup told "name").symm.trans value
    rw [withName, if_pos own, value, nameOf, given]
    simp only [present, if_false]
  · have filled : nameOf told name = name := by
      unfold nameOf
      split
      · rename_i text value
        have empty : text = "" := by
          by_contra present
          exact own (hasName_iff.mpr ⟨text, (merged_lookup told "name").trans value, present⟩)
        rw [if_pos empty]
      · rfl
    rw [withName, if_neg own, insert_lookup, if_pos rfl, filled]

theorem withName_distinct (distinct : Distinct ms) (name : String) :
    Distinct (withName ms name) := by
  unfold withName
  split
  · exact distinct
  · exact insert_distinct distinct _ _

theorem withName_all {good : Value → Prop} (all : ∀ m ∈ ms, good m.2)
    (text : good (.string name)) : ∀ m ∈ withName ms name, good m.2 := by
  intro m mem
  unfold withName at mem
  split at mem
  · exact all m mem
  · rcases mem_insert mem with rfl | old
    · exact text
    · exact all m old

theorem withName_withName (distinct : Distinct ms) (name : String) :
    withName (withName ms name) name = withName ms name := by
  by_cases own : hasName ms = true
  · have kept : withName ms name = ms := by rw [withName, if_pos own]
    rw [kept, kept]
  · have filled : withName ms name = ms.insert "name" (.string name) := by rw [withName, if_neg own]
    rw [filled, withName]
    split
    · rfl
    · exact insert_insert distinct _ _

theorem configText?_eq_some : d.configText? = some config ↔
    d.config = some config ∧ ∃ c ∈ config.toList, isBlank c = false := by
  have printed : (!(trim config.toList).isEmpty) = true ↔ ∃ c ∈ config.toList, isBlank c = false := by
    rw [Bool.not_eq_true', List.isEmpty_eq_false_iff, ne_eq, trim_eq_nil]
    simp
  rw [configText?, Option.filter_eq_some_iff, printed]

theorem pluginConfig_ok : d.pluginConfig = .ok out ↔ ∃ name config ms, d.name = some name ∧
    d.configText? = some config ∧ decodeText members config = .ok ms ∧
      out = (Value.object (withName ms name)).compact := by
  unfold pluginConfig
  constructor
  · intro made
    split at made
    · cases made
    · cases made
    · rename_i name config named text
      split at made
      · cases made
      · rename_i ms read
        exact ⟨name, config, ms, named, text, read, (Except.ok.inj made).symm⟩
  · rintro ⟨name, config, ms, named, text, read, rfl⟩
    simp only [named, text, read]

theorem exists_pluginConfig : (∃ out, d.pluginConfig = .ok out) ↔ ∃ name config told,
    d.name = some name ∧ d.config = some config ∧ (∃ c ∈ config.toList, isBlank c = false) ∧
      Tells config told := by
  constructor
  · rintro ⟨out, made⟩
    obtain ⟨name, config, ms, named, text, read, -⟩ := pluginConfig_ok.mp made
    obtain ⟨given, printed⟩ := configText?_eq_some.mp text
    obtain ⟨told, tells, -⟩ := (decodeText_members config ms).mp read
    exact ⟨name, config, told, named, given, printed, tells⟩
  · rintro ⟨name, config, told, named, given, printed, tells⟩
    have text := configText?_eq_some.mpr ⟨given, printed⟩
    have read := (decodeText_members config (merged told)).mpr ⟨told, tells, rfl⟩
    exact ⟨_, pluginConfig_ok.mpr ⟨name, config, _, named, text, read, rfl⟩⟩

theorem compact_printed (ms : Members) :
    ∃ c ∈ (Value.object ms).compact.toList, isBlank c = false := by
  refine ⟨'\x7b', ?_, by decide⟩
  unfold Value.compact
  rw [String.toList_ofList]
  cases ms <;> simp [Value.render]

theorem members_sound (read : decodeText members config = .ok ms) :
    Distinct ms ∧ ∀ m ∈ ms, m.2.Sound 126 :=
  (Gives.decode (gives_membersOf gives_value) read).2

theorem decodeText_withName (read : decodeText members config = .ok ms)
    (whole : ∀ m ∈ ms, m.2.Whole) (name : String) :
    decodeText members (Value.object (withName ms name)).compact = .ok (withName ms name) := by
  obtain ⟨distinct, sound⟩ := members_sound read
  apply decodeText_compact (withName_distinct distinct name)
  · exact withName_all sound trivial
  · exact withName_all whole (.string name)

theorem pluginConfig_again (named : d.name = some name)
    (read : decodeText members (Value.object (withName ms name)).compact = .ok (withName ms name))
    (distinct : Distinct ms) :
    pluginConfig { d with config := some (Value.object (withName ms name)).compact } =
      .ok (Value.object (withName ms name)).compact := by
  apply pluginConfig_ok.mpr
  refine ⟨name, _, withName ms name, named, configText?_eq_some.mpr ⟨rfl, compact_printed _⟩, read, ?_⟩
  rw [withName_withName distinct]

def net (config : String) : Definition := { name := some "net", config := some config }

theorem name_spelled {s : List Char}
    (plain : s.all (fun c => c != '"' && c != '\\' && 0x20 ≤ c.toNat) = true) :
    (Lexeme.string (s.map .char)).Spelled ('"' :: (s ++ ['"'])) := by
  apply Lexeme.Spelled.string
  apply Body.plain
  intro c mem
  simpa [and_assoc] using List.all_eq_true.mp plain c mem

theorem digits_whole {c : Char} {cs : List Char} (digits : (c :: cs).all Char.isDigit = true)
    (front : c ≠ '0') : Whole (c :: cs) := by
  refine ⟨⟨by simp, List.all_eq_true.mp digits⟩, ?_⟩
  intro more eq
  exact absurd (List.cons.inj eq).1 front

theorem integer_spelled {cs : List Char} (digits : Whole cs) :
    (Numeral.mk false (cs.map digit) [] none).Spelled cs := by
  have numeral := Numeral.Spelled.parts false digits (by simp : ∀ ds ∈ none, Digits ds) .none
  simpa [signText, fractionText] using numeral

def holding (w : List Char) : String :=
  String.ofList ('\x7b' :: '"' :: 'a' :: '"' :: ':' :: (w ++ ['\x7d']))

theorem holding_spelled {doc : Document} {w : List Char}
    (begins : ∀ s, Begins doc.lexemes (w ++ s) s) :
    (Document.object [([.char 'a'], doc)]).Spelled (holding w).toList := by
  have key := name_spelled (s := ['a']) rfl
  have closes : Begins [.closing .curly] ['\x7d'] [] := .tight (.closing .curly) (.nil [])
  have inside := (begins ['\x7d']).append closes
  refine ⟨[], ?_, by simp [Blank]⟩
  rw [holding, String.toList_ofList]
  exact .tight (.opening .curly) (.tight key (.tight .colon inside))

def nested : Nat → Document
  | 0 => .array []
  | n + 1 => .array [nested n]

def nestedText : Nat → List Char
  | 0 => ['[', ']']
  | n + 1 => '[' :: (nestedText n ++ [']'])

theorem nested_depth (n : Nat) : (nested n).depth = n + 1 := by
  induction n with
  | zero => rfl
  | succ n ih => simp [nested, Document.depth, itemsDepth, ih]

theorem nested_begins (n : Nat) (s : List Char) :
    Begins (nested n).lexemes (nestedText n ++ s) s := by
  have closes (s : List Char) : Begins [.closing .square] (']' :: s) s :=
    .tight (.closing .square) (.nil s)
  induction n generalizing s with
  | zero => exact .tight (w := ['[']) (.opening .square) (closes s)
  | succ n ih =>
    rw [nestedText, List.cons_append, List.append_assoc]
    exact .tight (.opening .square) ((ih (']' :: s)).append (closes s))

/-- An object of one member is refused if it nests too deep or the member says nothing. -/
theorem holding_refused {doc : Document} {w : List Char}
    (begins : ∀ s, Begins doc.lexemes (w ++ s) s) (bad : 127 ≤ doc.depth ∨ doc.value? = none)
    (out : String) : pluginConfig (net (holding w)) ≠ .ok out := by
  intro made
  obtain ⟨name, config, ms, -, text, read, -⟩ := pluginConfig_ok.mp made
  obtain rfl := Option.some.inj (configText?_eq_some.mp text).1
  obtain ⟨shallow, means⟩ := (decodeText_object (holding_spelled begins)).mp ⟨ms, read⟩
  rcases bad with deep | nothing
  · simp only [Document.depth, membersDepth] at shallow
    omega
  · rw [membersTold_isSome, nothing] at means
    simp at means

def repeating : String := "\x7b\"mtu\":9000,\"name\":\"\",\"mtu\":1500\x7d"

/-- A text that gives a key twice and has an empty name. -/
theorem repeating_tells : Tells repeating [("mtu", .number (.int 9000)), ("name", .string ""),
    ("mtu", .number (.int 1500))] := by
  have mtu := name_spelled (s := ['m', 't', 'u']) rfl
  have name := name_spelled (s := ['n', 'a', 'm', 'e']) rfl
  have empty := name_spelled (s := []) rfl
  have nineThousand : Whole ['9', '0', '0', '0'] := digits_whole rfl (by decide)
  have fifteenHundred : Whole ['1', '5', '0', '0'] := digits_whole rfl (by decide)
  have large := integer_spelled nineThousand
  have small := integer_spelled fifteenHundred
  have ends : Begins [.closing .curly] ['\x7d'] [] := .tight (.closing .curly) (.nil [])
  have last := Begins.tight .comma (.tight mtu (.tight .colon (.tight (.number small) ends)))
  have middle := Begins.tight .comma (.tight name (.tight .colon (.tight empty last)))
  have first := Begins.tight mtu (.tight .colon (.tight (.number large) middle))
  refine ⟨[(['m', 't', 'u'].map .char, .number ⟨false, [9, 0, 0, 0], [], none⟩),
    (['n', 'a', 'm', 'e'].map .char, .string []),
    (['m', 't', 'u'].map .char, .number ⟨false, [1, 5, 0, 0], [], none⟩)], ?_, by decide, ?_⟩
  · exact ⟨[], .tight (.opening .curly) first, by simp [Blank]⟩
  · decide +kernel

/-- There is a configuration for the plugin just if the definition has a name and its own
configuration is an object, with at most 127 brackets open at once, without half a surrogate pair
and without a number too large. Then, if the numbers are integers, the plugin's says the same, but
for a name that cannot be used; and of a definition that holds the plugin's it is that again. -/
theorem pluginConfig_keeps (d : Definition) :
    ((∃ out, d.pluginConfig = .ok out) ↔ ∃ name config told, d.name = some name ∧
      d.config = some config ∧ (∃ c ∈ config.toList, isBlank c = false) ∧ Tells config told) ∧
    ∀ name config told out, d.name = some name → d.config = some config → Tells config told →
      (∀ m ∈ told, m.2.Whole) → d.pluginConfig = .ok out →
      (∃ found, Tells out found ∧
        keysOf found = keysOf told ++ (if "name" ∈ keysOf told then [] else ["name"]) ∧
        (∀ key, key ≠ "name" → last? found key = last? told key) ∧
        last? found "name" = some (.string (nameOf told name))) ∧
      pluginConfig { d with config := some out } = .ok out := by
  refine ⟨exists_pluginConfig, ?_⟩
  intro name config told out named given tells whole made
  obtain ⟨name', config', ms, named', text, read, rfl⟩ := pluginConfig_ok.mp made
  obtain rfl : name = name' := Option.some.inj (named.symm.trans named')
  obtain rfl : config = config' :=
    Option.some.inj (given.symm.trans (configText?_eq_some.mp text).1)
  have expected := (decodeText_members config (merged told)).mpr ⟨told, tells, rfl⟩
  obtain rfl : merged told = ms := Except.ok.inj (expected.symm.trans read)
  have again := decodeText_withName read (fun m mem => whole m (mem_of_merged mem)) name
  obtain ⟨found, heard, same⟩ := (decodeText_members _ _).mp again
  constructor
  · refine ⟨found, heard, ?_, ?_, ?_⟩
    · rw [← merged_keys, ← same, withName_keys, merged_keys]
    · intro key other
      rw [← merged_lookup, ← same, withName_lookup other, merged_lookup]
    · rw [← merged_lookup, ← same, withName_name]
  · exact pluginConfig_again named again (merged_distinct told)

/-- The key that comes twice keeps its place and its last value, and the empty name is filled in. -/
theorem net_pluginConfig_keeps :
    (∃ out, pluginConfig (net repeating) = .ok out) ∧
    ∃ told, Tells repeating told ∧ (∀ m ∈ told, m.2.Whole) ∧
    ∃ out, pluginConfig (net repeating) = .ok out ∧
      (∃ found, Tells out found ∧ keysOf found = ["mtu", "name"] ∧
        last? found "mtu" = some (.number (.int 1500)) ∧
        last? found "name" = some (.string "net")) ∧
      pluginConfig (net out) = .ok out := by
  have keeps := pluginConfig_keeps (net repeating)
  have whole : ∀ m ∈ [("mtu", Value.number (.int 9000)), ("name", .string ""),
      ("mtu", .number (.int 1500))], m.2.Whole := by
    simp only [List.forall_mem_cons]
    exact ⟨.number (.int 9000), .string "", .number (.int 1500), by simp⟩
  have made : ∃ out, pluginConfig (net repeating) = .ok out :=
    keeps.1.mpr ⟨"net", repeating, _, rfl, rfl, ⟨'\x7b', by decide, by decide⟩, repeating_tells⟩
  obtain ⟨out, given⟩ := made
  obtain ⟨⟨found, tells, keys, values, name⟩, again⟩ :=
    keeps.2 "net" repeating _ out rfl rfl repeating_tells whole given
  refine ⟨⟨out, given⟩, _, repeating_tells, whole, out, given, ⟨found, tells, ?_, ?_, ?_⟩, again⟩
  · rw [keys]
    decide +kernel
  · rw [values "mtu" (by decide)]
    decide +kernel
  · rw [name]
    decide +kernel

/-- Objects that are refused: one that nests too deep, one whose number is too large, and one with
half a surrogate pair. And one whose integer is too large to be kept as it is: what the plugin is
given is not even its own configuration. -/
theorem pluginConfig_loses :
    (∀ p ∈ [(nested 126, nestedText 126), (.number ⟨false, [1], [], some 400⟩, "1e400".toList),
        (.string [.unit 0xD800], "\"\\uD800\"".toList)],
      (Document.object [([.char 'a'], p.1)]).Spelled (holding p.2).toList ∧
        ∀ out, pluginConfig (net (holding p.2)) ≠ .ok out) ∧
    (Document.object [([.char 'a'], .number ⟨false,
      [2, 0, 0, 9, 8, 7, 6, 5, 4, 3, 1, 2, 0, 9, 8, 7, 6, 5, 3, 6], [], none⟩)]).Spelled
        (holding "20098765431209876536".toList).toList ∧
    pluginConfig (net (holding "20098765431209876536".toList)) =
      .ok "\x7b\"a\":2.0098765431209878e+19,\"name\":\"net\"\x7d" ∧
    pluginConfig (net "\x7b\"a\":2.0098765431209878e+19,\"name\":\"net\"\x7d") =
      .ok "\x7b\"a\":2.009876543120988e+19,\"name\":\"net\"\x7d" := by
  refine ⟨?_, ?_, ?_, ?_⟩
  · intro p mem
    have refused {doc : Document} {w : List Char} (begins : ∀ s, Begins doc.lexemes (w ++ s) s)
        (bad : 127 ≤ doc.depth ∨ doc.value? = none) :
        (Document.object [([.char 'a'], doc)]).Spelled (holding w).toList ∧
          ∀ out, pluginConfig (net (holding w)) ≠ .ok out :=
      ⟨holding_spelled begins, holding_refused begins bad⟩
    simp only [List.mem_cons, List.not_mem_nil, or_false] at mem
    rcases mem with rfl | rfl | rfl
    · exact refused (nested_begins 126) (.inl (nested_depth 126).ge)
    · have fourHundred : Whole ['4', '0', '0'] := digits_whole rfl (by decide)
      have exponent : ExponentSpelled (some 400) ['e', '4', '0', '0'] :=
        @ExponentSpelled.some 'e' [] _ (by decide) (by decide) fourHundred.toDigits
      have one : Whole ['1'] := digits_whole rfl (by decide)
      have numeral := Numeral.Spelled.parts false one (by simp : ∀ ds ∈ none, Digits ds) exponent
      exact refused (fun s => .tight (.number numeral) (.nil s)) (.inr (by decide +kernel))
    · have lone : (Piece.unit 0xD800).Spelled ['\\', 'u', 'D', '8', '0', '0'] :=
        @Piece.Spelled.number 'D' '8' '0' '0' 13 8 0 0 rfl rfl rfl rfl
      exact refused (fun s => .tight (.string (.cons lone .nil)) (.nil s)) (.inr (by decide +kernel))
  · have large : Whole "20098765431209876536".toList :=
      digits_whole (c := '2') (by decide) (by decide)
    exact holding_spelled fun s => .tight (.number (integer_spelled large)) (.nil s)
  · decide +kernel
  · decide +kernel

end Hotplug.Definition
