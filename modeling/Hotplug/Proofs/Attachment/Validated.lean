import Hotplug.Proofs.Attachment.Desired
import Hotplug.Proofs.Attachment.HardwareAddress
/-!
The addresses of requested attachments are checked before any of them counts: an annotation with
one bad address in it asks for nothing at all. Which texts are IP addresses and networks is left
to the readers of both.
-/
namespace Hotplug

namespace Attachment

def IsHardware (address : String) : Prop :=
  address = "" ∨ HardwareAddress.IsAddress address.toList

def IsIp (text : String) : Prop :=
  (∃ ip, Address.Ip.ofText? text = some ip) ∨ ∃ network, Address.Network.ofText? text = some network

structure Valid (a : Attachment) : Prop where
  mac : IsHardware a.mac
  guid : IsHardware a.infinibandGuid
  ips : ∀ ip ∈ a.ips, IsIp ip

variable {a b : Attachment} {raw defaultNs : String} {elements desired : List Attachment}

theorem isHardware_of_request {address : String} (checked : isHardwareRequest address = true) :
    IsHardware address := by
  rcases Bool.or_eq_true_iff.mp checked with empty | accepted
  · exact .inl (String.isEmpty_iff.mp empty)
  · exact .inr (HardwareAddress.isAddress_of_accepts accepted)

theorem isIp_of_request {text : String} (checked : isIpRequest text = true) : IsIp text := by
  unfold isIpRequest at checked
  split at checked
  · exact .inr (Option.isSome_iff_exists.mp checked)
  · exact .inl (Option.isSome_iff_exists.mp checked)

theorem valid_of_validate (checked : a.validate = .ok ()) : a.Valid := by
  unfold validate at checked
  split at checked
  · cases checked
  · rename_i mac
    split at checked
    · cases checked
    · rename_i guid
      split at checked
      · cases checked
      · rename_i ips
        constructor
        · exact isHardware_of_request (by simpa using mac)
        · exact isHardware_of_request (by simpa using guid)
        · intro ip mem
          have passed := List.find?_eq_none.mp ips ip mem
          exact isIp_of_request (by simpa using passed)

/-- What is filled in is no address. -/
theorem valid_of_settle (settled : settle defaultNs a = .ok b) : a.Valid ∧ b.Valid := by
  unfold settle at settled
  dsimp only at settled
  cases checked : (if a.ns.isEmpty then { a with ns := defaultNs } else a).validate with
  | error fault =>
    rw [checked] at settled
    cases settled
  | ok _ =>
    rw [checked] at settled
    obtain rfl := Except.ok.inj settled
    have valid := valid_of_validate checked
    refine ⟨?_, valid⟩
    split at valid
    · exact ⟨valid.mac, valid.guid, valid.ips⟩
    · exact valid

theorem parse_valid (read : parse raw defaultNs = .ok desired) : ∀ a ∈ desired, a.Valid := by
  unfold parse at read
  split at read
  · cases read
  · obtain ⟨all, -, settled⟩ := Json.bind_ok.mp read
    intro b mem
    obtain ⟨a, -, settle⟩ := mapM_ok settled b mem
    exact (valid_of_settle settle).2

/-- Every element that was read is checked before any of them is asked for. -/
theorem readAll_valid (elements_eq : readAll raw = .ok elements)
    (read : parse raw defaultNs = .ok desired) : ∀ a ∈ elements, a.Valid := by
  unfold parse at read
  split at read
  · cases read
  · rw [elements_eq] at read
    intro a mem
    obtain ⟨b, settled⟩ := mapM_ok_each read a mem
    exact (valid_of_settle settled).1

theorem readAll_empty : readAll "" = .error (.missingName "") := by
  decide +kernel

end Attachment

variable {pod : Pod} {desired : List Attachment}

theorem Pod.desired_valid (read : pod.desired = .ok desired) : ∀ a ∈ desired, a.Valid := by
  unfold Pod.desired at read
  split at read
  · split at read
    · obtain rfl := Except.ok.inj read
      simp
    · exact Attachment.parse_valid read
  · obtain rfl := Except.ok.inj read
    simp

theorem Pod.elements_valid {raw : String} {elements : List Attachment}
    (annotated : pod.networks = some raw) (listed : Attachment.readAll raw = .ok elements)
    (read : pod.desired = .ok desired) : ∀ a ∈ elements, a.Valid := by
  unfold Pod.desired at read
  rw [annotated] at read
  dsimp only at read
  split at read
  · rename_i empty
    obtain rfl := String.isEmpty_iff.mp empty
    rw [Attachment.readAll_empty] at listed
    cases listed
  · exact Attachment.readAll_valid listed read

end Hotplug
