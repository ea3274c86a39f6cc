import Hotplug.Proofs.Attachment.Shorthand
import Hotplug.Proofs.Delegate.Answers
import Hotplug.Proofs.Json.Whole
/-!
What was read is written so that it can be read again: a delegate's answer, and the attachments of
an annotation, in whichever of its two forms that was. Which reals come back for others in the
arguments is not covered.
-/
namespace Hotplug.Attachment

open Hotplug.Json Hotplug.Text Hotplug.Delegate

def Levels (depth : Nat) (a : Attachment) : Prop :=
  ∀ members ∈ a.arguments, (Value.object members).Sound depth

theorem keeps_arguments {α : Type} {d : Decoder α} {good : Nat → α → Prop} (h : Gives d good)
    {set : α → Attachment → Attachment} (same : ∀ a r, (set a r).arguments = r.arguments)
    (names : List String) (required : Bool) : Keeps Levels ⟨names, required, d.map set⟩ := by
  apply keeps_field h
  intro depth a _ r sound
  unfold Levels
  rw [same]
  exact sound

theorem gives_members : Gives members fun depth members => (Value.object members).Sound depth := by
  apply (gives_membersOf gives_value).mono
  intro depth members sound
  obtain ⟨deep, distinct, levels⟩ := sound
  obtain ⟨depth, rfl⟩ := Nat.exists_eq_add_one.mpr deep
  exact ⟨distinct, levels⟩

theorem gives_decoder : Gives decoder fun depth a => 0 < depth ∧ a.Levels (depth - 1) := by
  have texts := gives_list gives_string
  apply gives_record
  · simp only [List.mem_cons, List.not_mem_nil, or_false, forall_eq_or_imp, forall_eq]
    refine ⟨?name, ?ns, ?ips, ?mac, ?guid, ?interface, ?arguments⟩
    case name => exact keeps_arguments gives_string (by intros; rfl) _ _
    case ns => exact keeps_arguments gives_string (by intros; rfl) _ _
    case ips => exact keeps_arguments texts (by intros; rfl) _ _
    case mac => exact keeps_arguments gives_string (by intros; rfl) _ _
    case guid => exact keeps_arguments gives_string (by intros; rfl) _ _
    case interface => exact keeps_arguments gives_string (by intros; rfl) _ _
    case arguments =>
      apply keeps_field (gives_option gives_members)
      intro depth arguments sound r _
      exact sound
  · intro depth members mem
    cases mem

/-- The shorthand cannot give arguments. -/
theorem ofShorthand_arguments {item : List Char} {a : Attachment}
    (read : ofShorthand item = .ok a) : a.arguments = none := by
  obtain ⟨⟨ns, network⟩, -, read⟩ := bind_ok.mp read
  obtain ⟨⟨name, interface⟩, -, read⟩ := bind_ok.mp read
  dsimp only at read
  split at read
  · cases read
  · split at read
    · cases read
    · rw [← Except.ok.inj read]

variable {raw defaultNs : String} {desired : List Attachment}

theorem readAll_sound (read : readAll raw = .ok desired) :
    ∀ a ∈ desired, a.Sound argumentsDepth := by
  unfold readAll at read
  split at read
  · split at read
    · rename_i found decoded
      obtain rfl := Except.ok.inj read
      have sound := (gives_option (gives_list gives_decoder)).decode decoded
      intro a mem
      cases found with
      | none => cases mem
      | some as => exact ((sound as rfl).2 a mem).2
    · cases read
  · intro a mem members present
    obtain ⟨item, -, short⟩ := mapM_ok read a mem
    rw [ofShorthand_arguments short] at present
    cases present

/-- An attachment as reading leaves it: it lies in a namespace, and its addresses were checked. -/
structure Settled (a : Attachment) : Prop where
  spaced : a.ns ≠ ""
  valid : a.validate = .ok ()
  sound : a.Sound argumentsDepth

theorem parse_settled (ns : defaultNs ≠ "") (read : parse raw defaultNs = .ok desired) :
    ∀ a ∈ desired, a.Settled := by
  have spaced := parse_spaced ns read
  unfold parse at read
  split at read
  · cases read
  · obtain ⟨all, readAll, settled⟩ := bind_ok.mp read
    intro a mem
    obtain ⟨b, among, settle⟩ := mapM_ok settled a mem
    have sound := readAll_sound readAll b among
    rw [settle_eq] at settle
    cases valid : (inNs defaultNs b).validate with
    | error fault =>
      rw [valid] at settle
      cases settle
    | ok _ =>
      rw [valid] at settle
      obtain rfl := Except.ok.inj settle
      have arguments : (inNs defaultNs b).arguments = b.arguments := by
        unfold inNs
        split <;> rfl
      refine ⟨spaced _ mem, valid, ?_⟩
      unfold Sound
      rw [arguments]
      exact sound

theorem Settled.settle {a : Attachment} (settled : a.Settled) (defaultNs : String) :
    Attachment.settle defaultNs a = .ok a := by
  have same : inNs defaultNs a = a := if_neg settled.spaced
  rw [settle_eq, same, settled.valid]
  rfl

/-- The numbers in its arguments are integers. -/
def Whole (a : Attachment) : Prop := ∀ members ∈ a.arguments, (Value.object members).Whole

theorem reads_whole {a : Attachment} {depth : Nat} (sound : a.Sound depth) (whole : a.Whole) :
    Reads decoder a.toJson (depth + 2) (· = a) := by
  have arguments : ∀ ms ∈ a.arguments, Reads members (.object ms) (depth + 1) (· = ms) := by
    intro ms present
    obtain ⟨distinct, levels⟩ := sound ms present
    cases whole ms present with
    | object each => exact reads_members distinct levels each
  show Reads decoder a.toJson (depth + 2) fun r => id r = a
  apply Fill.reads
  refine Fill.member rfl (reads_string a.name _) (by intros; rfl) ?_
  refine Fill.text rfl a.ns (by intros; rfl) (by rfl) ?_
  refine Fill.texts rfl a.ips (by intros; rfl) (by rfl) ?_
  refine Fill.text rfl a.mac (by intros; rfl) (by rfl) ?_
  refine Fill.text rfl a.infinibandGuid (by intros; rfl) (by rfl) ?_
  refine Fill.text rfl a.interface (by intros; rfl) (by rfl) ?_
  refine Fill.optional rfl arguments (by simp) (by intros; rfl) (by rfl) ?_
  exact Fill.done (Nat.le_refl 7)

theorem Lists.readAll_whole {document : String} (lists : Lists document desired)
    (sound : ∀ a ∈ desired, a.Sound argumentsDepth) (whole : ∀ a ∈ desired, a.Whole) :
    Attachment.readAll document = .ok desired := by
  have each : ∀ a ∈ desired, Reads decoder a.toJson 126 (· = a) :=
    fun a mem => reads_whole (sound a mem) (whole a mem)
  obtain ⟨_, read, found, rfl, same⟩ :=
    (reads_option (reads_items each) (by simp)).decode lists
  rw [same] at read
  have decoded : decodeText (option (list decoder)) document = .ok (some desired) := read
  simp only [Attachment.readAll, lists.isDocument, if_true, decoded, Option.getD_some]

theorem Lists.parse_settled {document : String} (lists : Lists document desired)
    (settled : ∀ a ∈ desired, a.Settled) (whole : ∀ a ∈ desired, a.Whole) (defaultNs : String) :
    Attachment.parse document defaultNs = .ok desired := by
  have nonempty : document ≠ "" := by
    rintro rfl
    cases lists.isDocument
  have read := lists.readAll_whole (fun a mem => (settled a mem).sound) whole
  rw [parse_of_readAll nonempty read]
  have kept := mapM_of_ok (g := id) fun a mem => (settled a mem).settle defaultNs
  rwa [List.map_id] at kept

/-- Every answer that is written is read as what it was; and so is every list of attachments that
was read from an annotation, in whichever namespace it is read again. -/
theorem answers_and_attachments_return :
    (∀ response : Response, Response.parse (bytesOf response.text) = .ok response) ∧
    ∀ raw defaultNs desired, defaultNs ≠ "" → parse raw defaultNs = .ok desired →
      (∀ a ∈ desired, ∀ members ∈ a.arguments, (Value.object members).Whole) →
      ∀ otherNs, parse (Value.array (desired.map toJson)).compact otherNs = .ok desired := by
  constructor
  · exact Response.parse_bytesOf
  · intro raw defaultNs desired ns read whole otherNs
    exact (lists_compact desired).parse_settled (parse_settled ns read) whole otherNs

def sampleAnnotation : String :=
  "[\x7b\"name\": \"net1\", \"ips\": [\"10.0.0.5/8\"], \"interface\": \"eth1\", " ++
    "\"cni-args\": \x7b\"vlan\": [7, null]\x7d\x7d]"

def sampleDesired : List Attachment :=
  [{ name := "net1", ns := "shop", ips := ["10.0.0.5/8"], interface := "eth1",
     arguments := some [("vlan", .array [.number (.int 7), .null])] }]

def sampleAnswer : String :=
  "\x7b\"result\": \x7b\"ips\": [\x7b\"interface\": 2, \"address\": \"10.1.2.3/24\", " ++
    "\"gateway\": \"::ffff:10.1.2.1\"\x7d, \x7b\"address\": \"2001:db8:0:0:1:0:0:7/64\"\x7d], " ++
    "\"routes\": [\x7b\"dst\": \"::/0\", \"gw\": \"fe80::1\"\x7d]\x7d\x7d"

def sampleResponse : Response :=
  { result := some {
      assignments := [
        ⟨some 2, ⟨.v4 #v[10, 1, 2, 3], 24, by decide⟩,
          some (.v6 #v[0, 0, 0, 0, 0, 0xFFFF, 0x0A01, 0x0201])⟩,
        ⟨none, ⟨.v6 #v[0x2001, 0x0DB8, 0, 0, 1, 0, 0, 7], 64, by decide⟩, none⟩]
      routes := [⟨⟨.v6 #v[0, 0, 0, 0, 0, 0, 0, 0], 0, by decide⟩,
        some (.v6 #v[0xFE80, 0, 0, 0, 0, 0, 0, 1])⟩] } }

theorem sample_answers_and_attachments_return :
    (Response.parse sampleAnswer.toUTF8.toList = .ok sampleResponse ∧
      Response.parse (bytesOf sampleResponse.text) = .ok sampleResponse) ∧
    parse sampleAnnotation "shop" = .ok sampleDesired ∧
    parse (Value.array (sampleDesired.map toJson)).compact "other" = .ok sampleDesired := by
  have answered : Response.parse sampleAnswer.toUTF8.toList = .ok sampleResponse := by
    decide +kernel
  have read : parse sampleAnnotation "shop" = .ok sampleDesired := by
    decide +kernel
  have whole : ∀ a ∈ sampleDesired, ∀ members ∈ a.arguments, (Value.object members).Whole := by
    intro a mem members present
    obtain rfl := List.mem_singleton.mp mem
    obtain rfl := Option.some.inj present
    apply Value.Whole.object
    intro m among
    obtain rfl := List.mem_singleton.mp among
    apply Value.Whole.array
    simp only [List.mem_cons, List.not_mem_nil, or_false, forall_eq_or_imp, forall_eq]
    exact ⟨.number (.int 7), .null⟩
  obtain ⟨answers, attachments⟩ := answers_and_attachments_return
  exact ⟨⟨answered, answers sampleResponse⟩, read,
    attachments _ "shop" _ (by decide) read whole "other"⟩

end Hotplug.Attachment
