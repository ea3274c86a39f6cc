import Hotplug.Proofs.Attachment.Shorthand
import Hotplug.Proofs.Plan.Unmet
/-!
Requests with one key are one request. A plan only looks at the first request of each key; where
no namespace and no name has a slash, the others repeat it. The shorthand lets no slash through,
a JSON list does. What is different in the addresses of two requests is not covered.
-/
namespace Hotplug

namespace Attachment

open Text

/-- One network of one namespace, by one interface. -/
def Alike (a b : Attachment) : Prop :=
  a.ns = b.ns ∧ a.name = b.name ∧ a.interface = b.interface

theorem alike_of_key {a b : Attachment} (wa : a.Segmented) (wb : b.Segmented)
    (same : a.key = b.key) : a.Alike b := by
  obtain ⟨network, interface⟩ := eq_of_key wa wb same
  rw [statusName_of_ns wa.ns_nonempty, statusName_of_ns wb.ns_nonempty] at network
  obtain ⟨ns, name⟩ := segment_unique network wa.ns_clean wb.ns_clean
  exact ⟨ns, name, interface⟩

theorem clean_of_label {s : List Char} (label : s ∈ labels) : Clean (String.ofList s) := by
  have chars := (isLabel_iff s).mpr label
  simp only [isLabel, Bool.and_eq_true, List.all_eq_true] at chars
  intro slash
  rw [String.toList_ofList] at slash
  have letter := chars.1.1 '/' slash
  cases letter

theorem clean_of_isSegment {s : List Char} (segment : IsSegment s) : Clean (String.ofList s) := by
  by_cases empty : s = []
  · simp [empty, Clean]
  · exact clean_of_label (segment empty)

theorem clean_of_asked {raw defaultNs : String} (clean : Clean defaultNs)
    (all : ∀ item ∈ items raw, Grammatical item) :
    ∀ a ∈ asked raw defaultNs, Clean a.ns ∧ Clean a.name := by
  intro a mem
  obtain ⟨b, among, rfl⟩ := List.mem_map.mp mem
  obtain ⟨item, listed, rfl⟩ := List.mem_map.mp among
  have segments := (all item listed).labelled
  have ns := clean_of_isSegment (segments (nsOf item) (by simp [Attachment.segments]))
  have name := clean_of_isSegment (segments (nameOf item) (by simp [Attachment.segments]))
  unfold inNs
  split
  · exact ⟨clean, name⟩
  · exact ⟨ns, name⟩

end Attachment

namespace Plan

variable {entries : List StatusEntry} {desired : List Attachment}
  {seen claimed claimed' : List String}

theorem assign_firsts : assign entries (firsts seen desired) seen claimed =
    assign entries desired seen claimed := by
  induction desired generalizing seen claimed with
  | nil => rfl
  | cons a more ih =>
    by_cases old : a.key ∈ seen
    · have same : firsts seen (a :: more) = firsts seen more := by simp [firsts, old]
      rw [same, assign_seen old, ih]
    · have first : firsts seen (a :: more) = a :: firsts (a.key :: seen) more := by
        simp [firsts, old]
      rw [first]
      cases met : meet? entries claimed a with
      | some next => rw [assign_met next old met, assign_met next old met, ih]
      | none => rw [assign_unmet old met, assign_unmet old met, ih]

section
variable (same : ∀ k, k ∈ claimed ↔ k ∈ claimed')
include same

theorem meet?_congr (a : Attachment) :
    (meet? entries claimed a = none ∧ meet? entries claimed' a = none) ∨
      ∃ next next', meet? entries claimed a = some next ∧ meet? entries claimed' a = some next' ∧
        ∀ k, k ∈ next ↔ k ∈ next' := by
  unfold meet?
  by_cases unnamed : a.interface = ""
  · have pick : candidate? entries claimed a.statusName =
        candidate? entries claimed' a.statusName :=
      candidate?_congr fun e _ _ => same e.key
    rw [if_pos unnamed, if_pos unnamed, pick]
    cases candidate? entries claimed' a.statusName with
    | none => exact .inl ⟨rfl, rfl⟩
    | some k =>
      refine .inr ⟨k :: claimed, k :: claimed', rfl, rfl, ?_⟩
      intro l
      rw [List.mem_cons, List.mem_cons, same]
  · rw [if_neg unnamed, if_neg unnamed]
    by_cases held : a.key ∈ claimed'
    · rw [if_pos held, if_pos ((same a.key).mpr held)]
      exact .inr ⟨claimed, claimed', rfl, rfl, same⟩
    · rw [if_neg held, if_neg fun mem => held ((same a.key).mp mem)]
      exact .inl ⟨rfl, rfl⟩

/-- The order and the number of the claims do not matter. -/
theorem assign_congr :
    (assign entries desired seen claimed).1 = (assign entries desired seen claimed').1 ∧
      ∀ k, k ∈ (assign entries desired seen claimed).2 ↔
        k ∈ (assign entries desired seen claimed').2 := by
  induction desired generalizing seen claimed claimed' with
  | nil => exact ⟨rfl, same⟩
  | cons a more ih =>
    by_cases old : a.key ∈ seen
    · rw [assign_seen old, assign_seen old]
      exact ih same
    · rcases meet?_congr same a with ⟨unmet, unmet'⟩ | ⟨next, next', met, met', same'⟩
      · rw [assign_unmet old unmet, assign_unmet old unmet']
        obtain ⟨firsts, claims⟩ := @ih (a.key :: seen) claimed claimed' same
        exact ⟨by rw [firsts], claims⟩
      · rw [assign_met next old met, assign_met next' old met']
        exact ih same'

end

/-- Requests with one key ask for an interface all or none. -/
def KeysAgree (desired : List Attachment) : Prop :=
  ∀ a ∈ desired, ∀ b ∈ desired, a.key = b.key → a.interface ≠ "" → b.interface ≠ ""

theorem named_firsts (agree : KeysAgree desired) (keys : List String) (k : String) :
    k ∈ named (firsts [] desired) keys ↔ k ∈ named desired keys := by
  rw [mem_named, mem_named]
  apply and_congr_left
  intro _
  constructor
  · rintro ⟨a, first, asked⟩
    exact ⟨a, (mem_of_mem_firsts first).1, asked⟩
  · rintro ⟨a, mem, asked, rfl⟩
    obtain ⟨b, first, key⟩ : ∃ b ∈ firsts [] desired, b.key = a.key := exists_first mem (by simp)
    exact ⟨b, first, agree a mem b (mem_of_mem_firsts first).1 key.symm asked, key⟩

theorem compute_firsts (agree : KeysAgree desired) (observed : List StatusEntry) :
    compute (firsts [] desired) observed = compute desired observed := by
  simp only [compute, assign_firsts]
  obtain ⟨add, claims⟩ := assign_congr (named_firsts agree _)
  rw [Plan.mk.injEq]
  refine ⟨add, ?_⟩
  congr 1
  apply List.filter_congr
  rintro ⟨k, e⟩ -
  simp only [List.contains_eq_mem, claims]

end Plan

/-- Requests of an annotation whose keys are the same are for the same interface of the same
network, so that a plan, which looks only at the first of them, leaves nothing out; in a JSON
list that holds if no namespace and no name has a slash. -/
theorem requests_are_told_apart {raw defaultNs : String} {desired : List Attachment}
    (spaced : defaultNs ≠ "") (clean : Clean defaultNs)
    (read : Attachment.parse raw defaultNs = .ok desired)
    (listed : Attachment.isDocument raw = true → ∀ a ∈ desired, Clean a.ns ∧ Clean a.name) :
    (∀ a ∈ desired, ∀ b ∈ desired, a.key = b.key → a.Alike b) ∧
      (∀ a ∈ desired, ∃ b ∈ Plan.firsts [] desired, b.Alike a) ∧
      ∀ observed, Plan.compute (Plan.firsts [] desired) observed = Plan.compute desired observed := by
  have segments : ∀ a ∈ desired, Clean a.ns ∧ Clean a.name := by
    cases form : Attachment.isDocument raw with
    | true => exact listed form
    | false =>
      have nonempty : raw ≠ "" := by
        rintro rfl
        cases read
      obtain ⟨all, rfl⟩ := Attachment.grammatical_of_parse nonempty form read
      exact Attachment.clean_of_asked clean all
  have wd : ∀ a ∈ desired, a.Segmented := by
    intro a mem
    obtain ⟨ns, name⟩ := segments a mem
    exact ⟨Attachment.parse_spaced spaced read a mem, ns, name⟩
  have alike : ∀ a ∈ desired, ∀ b ∈ desired, a.key = b.key → a.Alike b :=
    fun a ha b hb => Attachment.alike_of_key (wd a ha) (wd b hb)
  refine ⟨alike, ?_, ?_⟩
  · intro a mem
    obtain ⟨b, first, key⟩ : ∃ b ∈ Plan.firsts [] desired, b.key = a.key :=
      Plan.exists_first mem (by simp)
    exact ⟨b, first, alike b (Plan.mem_of_mem_firsts first).1 a mem key⟩
  · apply Plan.compute_firsts
    intro a ha b hb key asked
    rw [← (alike a ha b hb key).2.2]
    exact asked

def sampleListed : String :=
  "[\x7b\"name\": \"net1\", \"interface\": \"eth1\"\x7d, " ++
    "\x7b\"name\": \"net1\", \"interface\": \"eth1\", \"ips\": [\"10.1.1.7\"]\x7d, " ++
    "\x7b\"name\": \"net1\", \"interface\": \"eth/1\"\x7d]"

def sampleRepeated : List Attachment :=
  [{ ns := "ns1", name := "net1", interface := "eth1" },
    { ns := "ns1", name := "net1", interface := "eth1", ips := ["10.1.1.7"] },
    { ns := "ns1", name := "net1", interface := "eth/1" }]

theorem sample_told_apart :
    Attachment.parse sampleListed "ns1" = .ok sampleRepeated ∧
      (∀ a ∈ sampleRepeated, Clean a.ns ∧ Clean a.name) ∧
      (∀ a ∈ sampleRepeated, ∃ b ∈ Plan.firsts [] sampleRepeated, b.Alike a) ∧
      (Plan.firsts [] sampleRepeated).length = 2 := by
  have read : Attachment.parse sampleListed "ns1" = .ok sampleRepeated := by decide +kernel
  have clean : ∀ a ∈ sampleRepeated, Clean a.ns ∧ Clean a.name := by
    simp [sampleRepeated, Clean]
  obtain ⟨-, first, -⟩ :=
    requests_are_told_apart (by decide) (by simp [Clean]) read fun _ => clean
  exact ⟨read, clean, first, by decide +kernel⟩

def sampleSlashedName : String :=
  "[\x7b\"name\": \"net1/eth1\"\x7d, " ++
    "\x7b\"name\": \"net1\", \"interface\": \"eth1\"\x7d]"

/-- Two networks are asked for, and the second one is left out of the plan. -/
theorem slashed_name_hides_request :
    ∃ a b, Attachment.parse sampleSlashedName "ns1" = .ok [a, b] ∧ a.key = b.key ∧ ¬ a.Alike b ∧
      (Plan.compute [a, b] []).add = [a] := by
  refine ⟨{ ns := "ns1", name := "net1/eth1" },
    { ns := "ns1", name := "net1", interface := "eth1" }, ?_, ?_, ?_, ?_⟩
  · decide +kernel
  · decide +kernel
  · simp [Attachment.Alike]
  · decide +kernel

end Hotplug
