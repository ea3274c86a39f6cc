import Hotplug.Address.Parse
import Hotplug.Json.Decode
/-!
What a network plugin reports after it plugged an interface. Interfaces with a sandbox are
the ones inside the pod; the others are on the host.
-/
namespace Hotplug.Cni

open Hotplug.Json Hotplug.Address

structure Dns where
  nameservers : List String := []
  domain : String := ""
  search : List String := []
  options : List String := []
  deriving DecidableEq, Repr

structure Interface where
  name : String := ""
  mac : String := ""
  mtu : Option UInt32 := none
  sandbox : String := ""
  deriving DecidableEq, Repr

structure Assignment where
  interface : Option UInt64
  address : Network
  gateway : Option Ip
  deriving DecidableEq, Repr

structure Route where
  destination : Network
  gateway : Option Ip
  deriving DecidableEq, Repr

structure Result where
  version : String := ""
  interfaces : List Interface := []
  assignments : List Assignment := []
  routes : List Route := []
  dns : Dns := {}
  deriving DecidableEq, Repr

def Dns.isEmpty (dns : Dns) : Bool :=
  dns.nameservers.isEmpty && dns.domain.isEmpty && dns.search.isEmpty && dns.options.isEmpty

namespace Result

/-- The first interface in the pod's sandbox, or the first one there that has the requested
name, and its place in the full list. -/
def sandboxInterface (result : Result) (requested : String) : Option (Nat × Interface) :=
  let sandboxed := (result.interfaces.zipIdx.map fun (i, place) => (place, i)).filter
    fun (_, i) => !i.sandbox.isEmpty
  (sandboxed.find? fun (_, i) => !requested.isEmpty && i.name == requested) <|> sandboxed.head?

/-- The gateways of the routes that match every address. -/
def defaultGateways (result : Result) : List Ip :=
  (result.routes.filter (·.destination.length == 0)).filterMap (·.gateway)

end Result

def mtuDecoder : Decoder (Option UInt32) :=
  option ((natBelow UInt32.size).map UInt32.ofNat)

def ipDecoder : Decoder Ip := string.filterMap Ip.ofText?

def networkDecoder : Decoder Network := string.filterMap Network.ofText?

def Dns.decoder : Decoder Dns := record [
  field "nameservers" (list string) fun v dns => { dns with nameservers := v },
  field "domain" string fun v dns => { dns with domain := v },
  field "search" (list string) fun v dns => { dns with search := v },
  field "options" (list string) fun v dns => { dns with options := v }] {}

def Dns.toJson (dns : Dns) : Value := objectOf [
  listMember "nameservers" (strings dns.nameservers),
  textMember "domain" dns.domain,
  listMember "search" (strings dns.search),
  listMember "options" (strings dns.options)]

def Interface.decoder : Decoder Interface := record [
  requiredField "name" string fun v i => { i with name := v },
  field "mac" string fun v i => { i with mac := v },
  field "mtu" mtuDecoder fun v i => { i with mtu := v },
  field "sandbox" string fun v i => { i with sandbox := v }] {}

def mtuMember (mtu : Option UInt32) : Option (String × Value) :=
  optionalMember "mtu" (mtu.map fun n => .number (.int n.toNat))

def Interface.toJson (i : Interface) : Value := objectOf [
  member "name" (.string i.name),
  textMember "mac" i.mac,
  mtuMember i.mtu,
  textMember "sandbox" i.sandbox]

def anyNetwork : Network := ⟨.v4 #v[0, 0, 0, 0], 0, Nat.zero_le _⟩

def Assignment.decoder : Decoder Assignment := record [
  field "interface" (option ((natBelow UInt64.size).map UInt64.ofNat))
    fun v a => { a with interface := v },
  requiredField "address" networkDecoder fun v a => { a with address := v },
  field "gateway" (option ipDecoder) fun v a => { a with gateway := v }]
  ⟨none, anyNetwork, none⟩

def ipMember (key : String) (ip : Option Ip) : Option (String × Value) :=
  optionalMember key (ip.map fun ip => .string ip.text)

def Assignment.toJson (a : Assignment) : Value := objectOf [
  optionalMember "interface" (a.interface.map fun n => .number (.int n.toNat)),
  member "address" (.string a.address.text),
  ipMember "gateway" a.gateway]

def Route.decoder : Decoder Route := record [
  requiredField "dst" networkDecoder fun v r => { r with destination := v },
  field "gw" (option ipDecoder) fun v r => { r with gateway := v }]
  ⟨anyNetwork, none⟩

def Route.toJson (r : Route) : Value := objectOf [
  member "dst" (.string r.destination.text),
  ipMember "gw" r.gateway]

def Result.decoder : Decoder Result := record [
  field "cniVersion" string fun v r => { r with version := v },
  field "interfaces" (list Interface.decoder) fun v r => { r with interfaces := v },
  field "ips" (list Assignment.decoder) fun v r => { r with assignments := v },
  field "routes" (list Route.decoder) fun v r => { r with routes := v },
  field "dns" Dns.decoder fun v r => { r with dns := v }] {}

def Result.toJson (r : Result) : Value := objectOf [
  member "cniVersion" (.string r.version),
  listMember "interfaces" (r.interfaces.map Interface.toJson),
  listMember "ips" (r.assignments.map Assignment.toJson),
  listMember "routes" (r.routes.map Route.toJson),
  member "dns" r.dns.toJson]

end Hotplug.Cni
