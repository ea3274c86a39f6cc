import Hotplug.Delegate.Basic
import Hotplug.Proofs.Address.RoundTrip
import Hotplug.Proofs.Json.Rendering
import Hotplug.Proofs.Status.Codec
import Hotplug.Proofs.Text.Utf8
/-!
A delegate's answer is written so that it can be read again, whole: there are no reals in it, and
every address has a text that both address readers understand.
-/
namespace Hotplug.Cni

open Hotplug.Address Hotplug.Json

variable {depth : Nat}

theorem reads_ip (ip : Ip) : Reads ipDecoder (.string ip.text) depth (· = ip) :=
  (reads_string ip.text depth).filterMap ip.ofText_text

theorem reads_network (network : Network) :
    Reads networkDecoder (.string network.text) depth (· = network) :=
  (reads_string network.text depth).filterMap network.ofText_text

theorem reads_place (n : UInt64) :
    Reads ((natBelow UInt64.size).map UInt64.ofNat) (.number (.int n.toNat)) depth (· = n) := by
  have small := n.toNat_lt
  apply (reads_natBelow small small depth).map
  rintro _ rfl
  exact UInt64.ofNat_toNat

variable {ρ : Type} {view : ρ → ρ} {fields : List (Json.Field ρ)} {key : String} {i : Nat}
  {names : List String} {t u : ρ} {os : List (Option (String × Value))}

theorem fill_ip {set : Option Ip → ρ → ρ}
    (place : place? fields key = some (i, ⟨names, false, (option ipDecoder).map set⟩))
    (ip : Option Ip) (shown : ∀ r, view (set ip r) = set ip (view r)) (unset : set none t = t)
    (onward : Fill view fields depth (i + 1) (set ip t) os u) :
    Fill view fields depth i t (ipMember key ip :: os) u :=
  .optional place (fun ip _ => reads_ip ip) (by simp) shown unset onward

theorem Interface.reads (interface : Interface) :
    Reads Interface.decoder interface.toJson (depth + 1) (· = interface) := by
  have whole : Reads Interface.decoder interface.toJson (depth + 1)
      fun r => id r = interface := by
    apply Fill.reads
    refine Fill.member rfl (reads_string interface.name _) (by intros; rfl) ?_
    refine Fill.text rfl interface.mac (by intros; rfl) (by rfl) ?_
    refine fill_mtu rfl interface.mtu (by intros; rfl) (by rfl) ?_
    refine Fill.text rfl interface.sandbox (by intros; rfl) (by rfl) ?_
    exact Fill.done (Nat.le_refl 4)
  exact whole

theorem Assignment.reads (assignment : Assignment) :
    Reads Assignment.decoder assignment.toJson (depth + 1) (· = assignment) := by
  have whole : Reads Assignment.decoder assignment.toJson (depth + 1)
      fun r => id r = assignment := by
    apply Fill.reads
    refine Fill.optional rfl (fun n _ => reads_place n) (by simp) (by intros; rfl) (by rfl) ?_
    refine Fill.member rfl (reads_network assignment.address) (by intros; rfl) ?_
    refine fill_ip rfl assignment.gateway (by intros; rfl) (by rfl) ?_
    exact Fill.done (Nat.le_refl 3)
  exact whole

theorem Route.reads (route : Route) :
    Reads Route.decoder route.toJson (depth + 1) (· = route) := by
  have whole : Reads Route.decoder route.toJson (depth + 1) fun r => id r = route := by
    apply Fill.reads
    refine Fill.member rfl (reads_network route.destination) (by intros; rfl) ?_
    refine fill_ip rfl route.gateway (by intros; rfl) (by rfl) ?_
    exact Fill.done (Nat.le_refl 2)
  exact whole

theorem Result.reads (result : Result) :
    Reads Result.decoder result.toJson (depth + 3) (· = result) := by
  have whole : Reads Result.decoder result.toJson (depth + 3) fun r => id r = result := by
    apply Fill.reads
    refine Fill.member rfl (reads_string result.version _) (by intros; rfl) ?_
    refine Fill.items rfl (fun i _ => i.reads) (by intros; rfl) (by rfl) ?_
    refine Fill.items rfl (fun a _ => a.reads) (by intros; rfl) (by rfl) ?_
    refine Fill.items rfl (fun r _ => r.reads) (by intros; rfl) (by rfl) ?_
    refine Fill.member rfl (result.dns.reads depth) (by intros; rfl) ?_
    exact Fill.done (Nat.le_refl 5)
  exact whole

end Hotplug.Cni

namespace Hotplug.Delegate.Response

open Hotplug.Json Hotplug.Text

theorem reads (response : Response) (depth : Nat) :
    Reads decoder response.toJson (depth + 4) (· = response) := by
  have whole : Reads decoder response.toJson (depth + 4) fun r => id r = response := by
    apply Fill.reads
    refine Fill.optional rfl (fun r _ => r.reads) (by simp [Cni.Result.toJson, objectOf])
      (by intros; rfl) (by rfl) ?_
    exact Fill.done (Nat.le_refl 1)
  exact whole

theorem text_ne_empty (response : Response) : response.text ≠ "" := by
  intro empty
  obtain ⟨t, more, front, -⟩ := tokens_front response.toJson
  have read := tokens_compact response.toJson
  rw [← text, empty, front] at read
  cases read.symm.trans tokens_empty

theorem parse_bytesOf (response : Response) : parse (bytesOf response.text) = .ok response := by
  have reads : Reads decoder response.toJson greatestDepth (· = response) := response.reads 123
  have decoded : decode decoder (Symbol.ofText response.text) = .ok response := by
    obtain ⟨_, read, rfl⟩ := reads.decode (tokens_compact response.toJson)
    exact read
  have nonempty := bytesOf_isEmpty response.text_ne_empty
  simp only [parse, nonempty, Bool.false_eq_true, if_false, Symbol.ofBytes_bytesOf, decoded]

end Hotplug.Delegate.Response
