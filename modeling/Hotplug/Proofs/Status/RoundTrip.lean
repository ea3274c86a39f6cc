import Hotplug.Proofs.Json.Integral
import Hotplug.Proofs.Status.Codec
/-!
A written status says what the entries say. Entries that were read off a status or made from an
answer come back whole if their device infos hold no reals; which real comes back for another is
not covered.
-/
namespace Hotplug

open Hotplug.Delegate

namespace StatusEntry

/-- An entry whose device info holds no reals. -/
def Integral (e : StatusEntry) : Prop := ∀ v ∈ e.deviceInfo, v.Integral

theorem Integral.eq_of_rough {d e : StatusEntry} (integral : e.Integral)
    (same : d.rough = e.rough) : d = e := by
  obtain ⟨name, interface, ips, mac, mtu, isDefault, dns, deviceInfo, gateway⟩ :=
    StatusEntry.mk.inj same
  have device : d.deviceInfo = e.deviceInfo := by
    cases known : e.deviceInfo with
    | none =>
      rw [known] at deviceInfo
      exact Option.map_eq_none_iff.mp deviceInfo
    | some w =>
      rw [known] at deviceInfo
      obtain ⟨v, present, alike⟩ := Option.map_eq_some_iff.mp deviceInfo
      rw [present, (integral w known).eq_of_rough alike]
  cases d
  cases e
  simp_all

/-- The entries that come about: some were read, the others tell what a delegate answered. -/
inductive Known : StatusEntry → Prop
  | read {raw : String} {entries : List StatusEntry} {e : StatusEntry} :
    Status.parse raw = .ok entries → e ∈ entries → Known e
  | made {body : List UInt8} {response : Response} {result : Cni.Result}
      (name requested : String) :
    Response.parse body = .ok response → response.result = some result →
    Known (.ofResult name result requested)

theorem Known.sound {e : StatusEntry} (known : e.Known) : e.Sound Status.deviceDepth := by
  cases known with
  | read parsed mem => exact Status.parse_sound parsed e mem
  | made name requested parsed reported =>
    intro v mem
    cases mem

end StatusEntry

namespace Status

variable {entries : List StatusEntry}

/-- Every list of such entries can be written and read again, and is then what it was but for
the reals; without any it is just what it was. -/
theorem parse_serialize (known : ∀ e ∈ entries, e.Known) :
    ∃ found, parse (serialize entries) = .ok found ∧
      found.map StatusEntry.rough = entries.map StatusEntry.rough ∧
      ((∀ e ∈ entries, e.Integral) → found = entries) := by
  obtain ⟨found, read, same⟩ := parse_written fun e mem => (known e mem).sound
  refine ⟨found, read, same, ?_⟩
  intro integral
  exact Json.eq_of_map_eq (fun e mem d => (integral e mem).eq_of_rough) same

def sampleText : String :=
  "[\x7b\"name\": \"kindnet\", \"interface\": \"eth0\", \"mtu\": 1400, \"default\": true, " ++
    "\"dns\": null, \"device-info\": \x7b\"type\": \"pci\", \"slots\": [3, -1]\x7d\x7d]"

def sampleDevice : Json.Value :=
  .object [("type", .string "pci"), ("slots", .array [.number (.int 3), .number (.int (-1))])]

def sampleRead : StatusEntry :=
  { name := "kindnet", interface := "eth0", mtu := some 1400, isDefault := true,
    deviceInfo := some sampleDevice }

def sampleAnswer : String :=
  "\x7b\"Result\": \x7b\"interfaces\": [\x7b\"name\": \"eth1\", \"sandbox\": \"/n\"\x7d], " ++
    "\"dns\": \x7b\"search\": [\"a \\\"b\\\"\"]\x7d\x7d\x7d"

def sampleResult : Cni.Result :=
  { interfaces := [{ name := "eth1", sandbox := "/n" }], dns := { search := ["a \"b\""] } }

def sampleEntries : List StatusEntry :=
  [.ofResult "shop/net1" sampleResult "eth1", sampleRead]

theorem sampleDevice_integral : sampleDevice.Integral := by
  apply Json.Value.Integral.object
  simp only [List.mem_cons, List.not_mem_nil, or_false, forall_eq_or_imp, forall_eq]
  constructor
  · exact .string "pci"
  · apply Json.Value.Integral.array
    simp only [List.mem_cons, List.not_mem_nil, or_false, forall_eq_or_imp, forall_eq]
    exact ⟨.int 3, .int (-1)⟩

theorem sample_parse_serialize :
    (∀ e ∈ sampleEntries, e.Known) ∧ parse (serialize sampleEntries) = .ok sampleEntries := by
  have answered : Response.parse sampleAnswer.toUTF8.toList = .ok { result := sampleResult } := by
    decide +kernel
  have present : parse sampleText = .ok [sampleRead] := by
    decide +kernel
  have known : ∀ e ∈ sampleEntries, e.Known := by
    simp only [sampleEntries, List.mem_cons, List.not_mem_nil, or_false, forall_eq_or_imp,
      forall_eq]
    exact ⟨.made _ _ answered rfl, .read present (List.mem_singleton_self _)⟩
  have integral : ∀ e ∈ sampleEntries, e.Integral := by
    simp only [sampleEntries, List.mem_cons, List.not_mem_nil, or_false, forall_eq_or_imp,
      forall_eq]
    constructor
    · intro v mem
      cases mem
    · intro v mem
      cases mem
      exact sampleDevice_integral
  obtain ⟨found, read, -, whole⟩ := parse_serialize known
  rw [whole integral] at read
  exact ⟨known, read⟩

end Status

end Hotplug
