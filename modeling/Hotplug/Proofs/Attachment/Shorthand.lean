import Hotplug.Proofs.Attachment.Codec
import Hotplug.Proofs.Attachment.Desired
import Hotplug.Proofs.Text.Pieces
import Mathlib.Computability.Language
/-!
The shorthand of the networks annotation is read by its grammar: items between commas, each a
name, with a namespace before a slash and an interface behind an at sign if those are given.
The first item that breaks the grammar is the one that is reported. Which characters are blanks
around the segments is not covered.
-/
namespace Hotplug.Attachment

open Hotplug.Text
open scoped Computability

def alphanumeric : Set Char := {c | 'a' ≤ c ∧ c ≤ 'z' ∨ '0' ≤ c ∧ c ≤ '9'}

def oneOf (chars : Set Char) : Language Char := {s | ∃ c ∈ chars, s = [c]}

/-- The language of `[a-z0-9]([-a-z0-9]*[a-z0-9])?`. -/
def labels : Language Char :=
  oneOf alphanumeric * (1 + (oneOf (insert '-' alphanumeric))∗ * oneOf alphanumeric)

theorem mem_star_oneOf {chars : Set Char} {s : List Char} :
    s ∈ (oneOf chars)∗ ↔ ∀ c ∈ s, c ∈ chars := by
  constructor
  · intro mem c inside
    obtain ⟨pieces, rfl, each⟩ := Language.mem_kstar.mp mem
    obtain ⟨piece, among, inside⟩ := List.mem_flatten.mp inside
    obtain ⟨d, good, rfl⟩ := each piece among
    rwa [List.mem_singleton.mp inside]
  · intro all
    refine Language.mem_kstar.mpr ⟨s.map ([·]), ?_, ?_⟩
    · simp [← List.flatMap_def]
    · intro piece among
      obtain ⟨c, mem, rfl⟩ := List.mem_map.mp among
      exact ⟨c, all c mem, rfl⟩

theorem isLabelEnd_iff (c : Char) : isLabelEnd c = true ↔ c ∈ alphanumeric := by
  simp [isLabelEnd, alphanumeric]

theorem isLabelChar_iff (c : Char) : isLabelChar c = true ↔ c ∈ insert '-' alphanumeric := by
  rw [isLabelChar, Bool.or_eq_true, isLabelEnd_iff, beq_iff_eq, Set.mem_insert_iff, or_comm]

theorem isLabel_iff (s : List Char) : isLabel s = true ↔ s ∈ labels := by
  simp only [isLabel, Bool.and_eq_true, List.all_eq_true, Option.any_eq_true, isLabelEnd_iff,
    isLabelChar_iff, labels, Language.mem_mul, Language.mem_add, Language.mem_one]
  constructor
  · rintro ⟨⟨all, c, first, good⟩, d, last, good'⟩
    obtain ⟨tail, rfl⟩ := List.head?_eq_some_iff.mp first
    refine ⟨[c], ⟨c, good, rfl⟩, tail, ?_, rfl⟩
    rcases List.eq_nil_or_concat' tail with rfl | ⟨middle, e, rfl⟩
    · exact .inl rfl
    · rw [← List.cons_append, List.getLast?_concat] at last
      obtain rfl := Option.some.inj last
      refine .inr ⟨middle, mem_star_oneOf.mpr ?_, [e], ⟨e, good', rfl⟩, rfl⟩
      intro x mem
      exact all x (by simp [mem])
  · rintro ⟨_, ⟨c, good, rfl⟩, tail, rfl | ⟨middle, star, _, ⟨d, good', rfl⟩, rfl⟩, rfl⟩
    · exact ⟨⟨by simp [good], c, rfl, good⟩, c, rfl, good⟩
    · have inner := mem_star_oneOf.mp star
      refine ⟨⟨?_, c, rfl, good⟩, d, List.getLast?_concat (l := c :: middle), good'⟩
      intro x mem
      rcases List.mem_append.mp mem with head | tail
      · exact .inr (List.mem_singleton.mp head ▸ good)
      · rcases List.mem_append.mp tail with middle | last
        · exact inner x middle
        · exact .inr (List.mem_singleton.mp last ▸ good')

def halves (item : List Char) : List Char × List Char := (splitOnce '/' item).getD ([], item)

def ends (network : List Char) : List Char × List Char :=
  (splitOnce '@' network).getD (network, [])

def nsOf (item : List Char) : List Char := trim (halves item).1

def nameOf (item : List Char) : List Char := trim (ends (halves item).2).1

def interfaceOf (item : List Char) : List Char := trim (ends (halves item).2).2

def segments (item : List Char) : List (List Char) := [nsOf item, nameOf item, interfaceOf item]

/-- What an item asks for, with an empty namespace or interface where none is given. -/
def written (item : List Char) : Attachment :=
  { ns := String.ofList (nsOf item), name := String.ofList (nameOf item),
    interface := String.ofList (interfaceOf item) }

def IsSegment (segment : List Char) : Prop := segment ≠ [] → segment ∈ labels

structure Grammatical (item : List Char) : Prop where
  slashes : item.count '/' ≤ 1
  ats : (halves item).2.count '@' ≤ 1
  named : nameOf item ≠ []
  labelled : ∀ segment ∈ segments item, IsSegment segment

/-- What is wrong with an item, in the order in which it is looked at. -/
inductive Offends (item : List Char) : AnnotationFault → Prop
  | slashes : 1 < item.count '/' →
    Offends item (.invalidObject (String.ofList (trim item)) '/')
  | ats : item.count '/' ≤ 1 → 1 < (halves item).2.count '@' →
    Offends item (.invalidObject (String.ofList (trim item)) '@')
  | unnamed : item.count '/' ≤ 1 → (halves item).2.count '@' ≤ 1 → nameOf item = [] →
    Offends item (.missingName (String.ofList (trim item)))
  | segment {good rest : List (List Char)} {bad : List Char} : item.count '/' ≤ 1 →
    (halves item).2.count '@' ≤ 1 → nameOf item ≠ [] →
    segments item = good ++ bad :: rest → (∀ segment ∈ good, IsSegment segment) →
    ¬ IsSegment bad → Offends item (.invalidSegment (String.ofList bad))

variable {item : List Char}

theorem splitNamespace_trim (slashes : item.count '/' ≤ 1) :
    ∃ network, splitNamespace (trim item) = .ok (nsOf item, network) ∧
      Padded (halves item).2 network := by
  have padded := padded_trim item
  rcases padded.cut (by decide : isBlank '/' = false) with
    ⟨-, whole, pieces⟩ | ⟨-, halves, pieces, padded, padded'⟩ | ⟨count, -⟩
  · refine ⟨trim item, ?_, ?_⟩
    · simp only [splitNamespace, pieces, nsOf, Attachment.halves, whole, Option.getD_none]
      rfl
    · simpa only [Attachment.halves, whole, Option.getD_none] using padded
  · rename_i before after front back
    refine ⟨back, ?_, ?_⟩
    · simp only [splitNamespace, pieces, nsOf, Attachment.halves, halves, Option.getD_some,
        padded.trim_eq]
    · simpa only [Attachment.halves, halves, Option.getD_some] using padded'
  · omega

theorem splitNamespace_of_slashes (slashes : 1 < item.count '/') :
    splitNamespace (trim item) = .error (.invalidObject (String.ofList (trim item)) '/') := by
  rcases (padded_trim item).cut (by decide : isBlank '/' = false) with
    ⟨count, -⟩ | ⟨count, -⟩ | ⟨-, pieces⟩
  · omega
  · omega
  · simp only [splitNamespace, pieces]

section
variable {rest network : List Char} (padded : Padded rest network)
include padded

theorem splitInterface_padded (ats : rest.count '@' ≤ 1) :
    splitInterface item network = .ok (trim (ends rest).1, trim (ends rest).2) := by
  rcases padded.cut (by decide : isBlank '@' = false) with
    ⟨-, whole, pieces⟩ | ⟨-, halves, pieces, padded, padded'⟩ | ⟨count, -⟩
  · simp only [splitInterface, pieces, ends, whole, Option.getD_none, padded.trim_eq]
    rfl
  · simp only [splitInterface, pieces, ends, halves, Option.getD_some, padded.trim_eq,
      padded'.trim_eq]
  · omega

theorem splitInterface_of_ats (ats : 1 < rest.count '@') :
    splitInterface item network = .error (.invalidObject (String.ofList item) '@') := by
  rcases padded.cut (by decide : isBlank '@' = false) with
    ⟨count, -⟩ | ⟨count, -⟩ | ⟨-, pieces⟩
  · omega
  · omega
  · simp only [splitInterface, pieces]

end

theorem isSegment_iff (segment : List Char) :
    (!segment.isEmpty && !isLabel segment) = false ↔ IsSegment segment := by
  rw [IsSegment, ← isLabel_iff]
  cases segment <;> simp

/-- What is looked at once an item is cut. -/
theorem ofShorthand_cut (slashes : item.count '/' ≤ 1) (ats : (halves item).2.count '@' ≤ 1) :
    ofShorthand (trim item) =
      if (nameOf item).isEmpty then .error (.missingName (String.ofList (trim item)))
      else match (segments item).find? fun segment => !segment.isEmpty && !isLabel segment with
        | some segment => .error (.invalidSegment (String.ofList segment))
        | none => .ok (written item) := by
  obtain ⟨network, cut, padded⟩ := splitNamespace_trim slashes
  have cut' : splitInterface (trim item) network = .ok (nameOf item, interfaceOf item) :=
    splitInterface_padded padded ats
  unfold ofShorthand
  rw [cut]
  dsimp only [bind, Except.bind]
  rw [cut']
  dsimp only [bind, Except.bind]
  split
  · rfl
  · rfl

theorem Grammatical.reads (h : Grammatical item) : ofShorthand (trim item) = .ok (written item) := by
  have none : (segments item).find? (fun segment => !segment.isEmpty && !isLabel segment) =
      none := by
    apply List.find?_eq_none.mpr
    intro segment mem
    rw [(isSegment_iff segment).mpr (h.labelled segment mem)]
    exact Bool.false_ne_true
  rw [ofShorthand_cut h.slashes h.ats, none, if_neg (by simpa using h.named)]

theorem Offends.reads {fault : AnnotationFault} (h : Offends item fault) :
    ofShorthand (trim item) = .error fault := by
  cases h with
  | slashes many =>
    unfold ofShorthand
    rw [splitNamespace_of_slashes many]
    rfl
  | ats slashes many =>
    obtain ⟨network, cut, padded⟩ := splitNamespace_trim slashes
    unfold ofShorthand
    rw [cut]
    dsimp only [bind, Except.bind]
    rw [splitInterface_of_ats padded many]
  | unnamed slashes ats unnamed =>
    rw [ofShorthand_cut slashes ats, unnamed]
    rfl
  | @segment good rest bad slashes ats named parts before broken =>
    have found : (segments item).find? (fun segment => !segment.isEmpty && !isLabel segment) =
        some bad := by
      apply List.find?_eq_some_iff_append.mpr
      refine ⟨?_, good, rest, parts, ?_⟩
      · exact Bool.of_not_eq_false fun sound => broken ((isSegment_iff bad).mp sound)
      · intro segment mem
        rw [(isSegment_iff segment).mpr (before segment mem)]
        rfl
    rw [ofShorthand_cut slashes ats, found, if_neg (by simpa using named)]

theorem grammatical_or_offends (item : List Char) :
    Grammatical item ∨ ∃ fault, Offends item fault := by
  by_cases slashes : item.count '/' ≤ 1
  case neg => exact .inr ⟨_, .slashes (Nat.lt_of_not_le slashes)⟩
  by_cases ats : (halves item).2.count '@' ≤ 1
  case neg => exact .inr ⟨_, .ats slashes (Nat.lt_of_not_le ats)⟩
  by_cases named : nameOf item = []
  case pos => exact .inr ⟨_, .unnamed slashes ats named⟩
  cases found : (segments item).find? fun segment => !segment.isEmpty && !isLabel segment with
  | none =>
    refine .inl ⟨slashes, ats, named, ?_⟩
    intro segment mem
    exact (isSegment_iff segment).mp (Bool.of_not_eq_true (List.find?_eq_none.mp found segment mem))
  | some bad =>
    obtain ⟨broken, good, rest, parts, before⟩ := List.find?_eq_some_iff_append.mp found
    refine .inr ⟨_, .segment slashes ats named parts ?_ ?_⟩
    · intro segment mem
      have sound := before segment mem
      rw [Bool.not_eq_true'] at sound
      exact (isSegment_iff segment).mp sound
    · intro sound
      rw [(isSegment_iff bad).mpr sound] at broken
      cases broken

def items (raw : String) : List (List Char) := raw.toList.splitOn ','

def inNs (defaultNs : String) (a : Attachment) : Attachment :=
  if a.ns = "" then { a with ns := defaultNs } else a

variable {raw defaultNs : String}

structure Bare (a : Attachment) : Prop where
  ips : a.ips = []
  mac : a.mac = ""
  infinibandGuid : a.infinibandGuid = ""
  arguments : a.arguments = none

theorem bare_of_written : ∀ a ∈ (items raw).map written, a.Bare := by
  intro a mem
  obtain ⟨item, -, rfl⟩ := List.mem_map.mp mem
  exact ⟨rfl, rfl, rfl, rfl⟩

theorem Bare.inNs {a : Attachment} (bare : a.Bare) : (inNs defaultNs a).Bare := by
  unfold Attachment.inNs
  split
  · exact ⟨bare.ips, bare.mac, bare.infinibandGuid, bare.arguments⟩
  · exact bare

theorem Bare.valid {a : Attachment} (bare : a.Bare) : a.validate = .ok () := by
  simp [validate, isHardwareRequest, bare.ips, bare.mac, bare.infinibandGuid]

theorem settle_eq (defaultNs : String) (a : Attachment) :
    settle defaultNs a = (inNs defaultNs a).validate.map fun _ => inNs defaultNs a := by
  unfold settle inNs
  by_cases none : a.ns = "" <;> simp [none]

theorem Bare.settle {a : Attachment} (bare : a.Bare) :
    settle defaultNs a = .ok (Attachment.inNs defaultNs a) := by
  rw [settle_eq, bare.inNs.valid]
  rfl

/-- Some item is the first that breaks the grammar. -/
def Breaks (raw : String) (fault : AnnotationFault) : Prop :=
  ∃ good bad rest, items raw = good ++ bad :: rest ∧ (∀ item ∈ good, Grammatical item) ∧
    Offends bad fault

theorem grammatical_or_breaks (raw : String) :
    (∀ item ∈ items raw, Grammatical item) ∨ ∃ fault, Breaks raw fault := by
  unfold Breaks
  induction items raw with
  | nil => exact .inl (by simp)
  | cons item more ih =>
    rcases grammatical_or_offends item with fine | ⟨fault, offends⟩
    · rcases ih with all | ⟨fault, good, bad, rest, parts, before, offends⟩
      · exact .inl (List.forall_mem_cons.mpr ⟨fine, all⟩)
      · refine .inr ⟨fault, item :: good, bad, rest, ?_, ?_, offends⟩
        · rw [parts, List.cons_append]
        · exact List.forall_mem_cons.mpr ⟨fine, before⟩
    · exact .inr ⟨fault, [], item, more, rfl, by simp, offends⟩

section
variable (short : isDocument raw = false)
include short

theorem readAll_of_grammatical (all : ∀ item ∈ items raw, Grammatical item) :
    readAll raw = .ok ((items raw).map written) := by
  unfold readAll
  rw [short, if_neg Bool.false_ne_true, splitAt_eq_splitOn]
  exact mapM_of_ok fun item mem => (all item mem).reads

theorem readAll_of_breaks {fault : AnnotationFault} (breaks : Breaks raw fault) :
    readAll raw = .error fault := by
  obtain ⟨good, bad, rest, parts, before, offends⟩ := breaks
  unfold readAll
  rw [short, if_neg Bool.false_ne_true, splitAt_eq_splitOn, ← items, parts]
  exact mapM_of_error (fun item mem => ⟨_, (before item mem).reads⟩) offends.reads

end

section
variable (nonempty : raw ≠ "")
include nonempty

theorem parse_of_readAll {as : List Attachment} (read : readAll raw = .ok as) :
    parse raw defaultNs = as.mapM (settle defaultNs) := by
  unfold parse
  rw [if_neg (by simpa using nonempty), read]
  rfl

theorem parse_of_fault {fault : AnnotationFault} (read : readAll raw = .error fault) :
    parse raw defaultNs = .error fault := by
  unfold parse
  rw [if_neg (by simpa using nonempty), read]
  rfl

end

def asked (raw defaultNs : String) : List Attachment :=
  ((items raw).map written).map (inNs defaultNs)

theorem Lists.parse {document : String} {as : List Attachment} (lists : Lists document as)
    (bare : ∀ a ∈ as, a.Bare) : parse document defaultNs = .ok (as.map (inNs defaultNs)) := by
  have nonempty : document ≠ "" := by
    rintro rfl
    cases lists.isDocument
  rw [parse_of_readAll nonempty (lists.readAll_of_bare fun a mem => (bare a mem).arguments)]
  exact mapM_of_ok fun a mem => (bare a mem).settle

theorem inNs_idem (defaultNs : String) (a : Attachment) :
    inNs defaultNs (inNs defaultNs a) = inNs defaultNs a := by
  unfold inNs
  by_cases none : a.ns = ""
  · by_cases blank : defaultNs = "" <;> simp [none, blank]
  · simp [none]

section
variable (nonempty : raw ≠ "") (short : isDocument raw = false)
include nonempty short

theorem parse_of_grammatical (all : ∀ item ∈ items raw, Grammatical item) :
    parse raw defaultNs = .ok (asked raw defaultNs) := by
  rw [parse_of_readAll nonempty (readAll_of_grammatical short all)]
  exact mapM_of_ok fun a mem => (bare_of_written a mem).settle

theorem parse_of_breaks {fault : AnnotationFault} (breaks : Breaks raw fault) :
    parse raw defaultNs = .error fault :=
  parse_of_fault nonempty (readAll_of_breaks short breaks)

theorem grammatical_of_parse {desired : List Attachment}
    (read : parse raw defaultNs = .ok desired) :
    (∀ item ∈ items raw, Grammatical item) ∧ desired = asked raw defaultNs := by
  rcases grammatical_or_breaks raw with all | ⟨fault, breaks⟩
  · rw [parse_of_grammatical nonempty short all] at read
    exact ⟨all, (Except.ok.inj read).symm⟩
  · rw [parse_of_breaks nonempty short breaks] at read
    cases read

theorem breaks_of_parse {fault : AnnotationFault} (read : parse raw defaultNs = .error fault) :
    Breaks raw fault := by
  rcases grammatical_or_breaks raw with all | ⟨first, breaks⟩
  · rw [parse_of_grammatical nonempty short all] at read
    cases read
  · rw [parse_of_breaks nonempty short breaks] at read
    rwa [← Except.error.inj read]

end

theorem not_isDocument (short : ∀ c ∈ ['[', '\x7b', '"'], c ∉ raw.toList) :
    isDocument raw = false := by
  simp only [List.mem_cons, List.not_mem_nil, or_false, forall_eq_or_imp, forall_eq] at short
  obtain ⟨square, curly, quote⟩ := short
  rw [isDocument, List.any_eq_false]
  intro c mem
  simp only [Bool.or_eq_true, beq_iff_eq, not_or]
  refine ⟨⟨?_, ?_⟩, ?_⟩
  · exact fun same => square (same ▸ mem)
  · exact fun same => curly (same ▸ mem)
  · exact fun same => quote (same ▸ mem)

/-- A list of what the items say, and one of what they stand for, ask for the same. -/
theorem Lists.parse_asked {document : String}
    (lists : Lists document ((items raw).map written) ∨ Lists document (asked raw defaultNs)) :
    Attachment.parse document defaultNs = .ok (asked raw defaultNs) := by
  rcases lists with lists | lists
  · exact lists.parse bare_of_written
  · have bare : ∀ a ∈ asked raw defaultNs, a.Bare := by
      intro a mem
      obtain ⟨b, among, rfl⟩ := List.mem_map.mp mem
      exact (bare_of_written b among).inNs
    rw [lists.parse bare, asked, List.map_map]
    simp only [Function.comp_def, inNs_idem]

/-- The shorthand is read by its grammar: it is accepted if all items keep to it, and stands for
what they are written as; else the first item that does not is reported. A JSON list of the same
segments, whether the default namespace was filled in or not, is read as the same attachments. -/
theorem shorthand_is_read_by_its_grammar (raw defaultNs : String) (nonempty : raw ≠ "")
    (short : ∀ c ∈ ['[', '\x7b', '"'], c ∉ raw.toList) :
    (∀ desired, parse raw defaultNs = .ok desired ↔
      (∀ item ∈ items raw, Grammatical item) ∧ desired = asked raw defaultNs) ∧
    (∀ fault, parse raw defaultNs = .error fault ↔ Breaks raw fault) ∧
    (∀ document, Lists document ((items raw).map written) ∨ Lists document (asked raw defaultNs) →
      parse document defaultNs = .ok (asked raw defaultNs)) := by
  have short := not_isDocument short
  refine ⟨fun desired => ⟨grammatical_of_parse nonempty short, ?_⟩,
    fun fault => ⟨breaks_of_parse nonempty short, parse_of_breaks nonempty short⟩,
    fun _ => Lists.parse_asked⟩
  rintro ⟨all, rfl⟩
  exact parse_of_grammatical nonempty short all

def sampleShorthand : String := " net1 ,ns2/net-2@eth0"

def sampleShort : List Attachment :=
  [{ ns := "ns1", name := "net1" }, { ns := "ns2", name := "net-2", interface := "eth0" }]

theorem sample_shorthand :
    ((∀ item ∈ items sampleShorthand, Grammatical item) ∧
      sampleShort = asked sampleShorthand "ns1") ∧
    Breaks "net1,ns2/net2-,a/b/c" (.invalidSegment "net2-") ∧
    parse (Json.Value.array (((items sampleShorthand).map written).map toJson)).compact "ns1" =
      .ok (asked sampleShorthand "ns1") ∧
    parse (Json.Value.array ((asked sampleShorthand "ns1").map toJson)).indented "ns1" =
      .ok (asked sampleShorthand "ns1") := by
  have accepted : parse sampleShorthand "ns1" = .ok sampleShort := by decide +kernel
  have rejected : parse "net1,ns2/net2-,a/b/c" "ns1" = .error (.invalidSegment "net2-") := by
    decide +kernel
  have reads := shorthand_is_read_by_its_grammar sampleShorthand "ns1" (by decide)
    (by simp [sampleShorthand])
  have reads' := shorthand_is_read_by_its_grammar "net1,ns2/net2-,a/b/c" "ns1" (by decide)
    (by simp)
  exact ⟨(reads.1 _).mp accepted, (reads'.2.1 _).mp rejected,
    reads.2.2 _ (.inl (lists_compact _)), reads.2.2 _ (.inr (lists_indented _))⟩

end Hotplug.Attachment
