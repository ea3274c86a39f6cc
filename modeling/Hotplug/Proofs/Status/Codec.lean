import Hotplug.Status
import Hotplug.Proofs.Json.Reading
import Mathlib.Data.List.Forall2
import Mathlib.Data.List.TakeWhile
/-!
A status is written so that it can be read again: all entries that were read or made from an
answer come back, in their order, but for the reals in a device info.
-/
namespace Hotplug

open Hotplug.Json Hotplug.Text

variable {depth i : Nat} {ρ : Type} {view : ρ → ρ} {fields : List (Json.Field ρ)} {t u : ρ}
  {names : List String} {os : List (Option (String × Value))}

theorem reads_mtu (n : UInt32) :
    Reads ((natBelow UInt32.size).map UInt32.ofNat) (.number (.int n.toNat)) depth (· = n) := by
  have small := n.toNat_lt
  apply (reads_natBelow small (by omega) depth).map
  rintro _ rfl
  exact UInt32.ofNat_toNat

theorem fill_mtu {set : Option UInt32 → ρ → ρ}
    (place : place? fields "mtu" = some (i, ⟨names, false, Cni.mtuDecoder.map set⟩))
    (mtu : Option UInt32) (shown : ∀ r, view (set mtu r) = set mtu (view r))
    (unset : set none t = t) (onward : Fill view fields depth (i + 1) (set mtu t) os u) :
    Fill view fields depth i t (Cni.mtuMember mtu :: os) u :=
  .optional place (fun n _ => reads_mtu n) (by simp) shown unset onward

theorem fill_default {set : Bool → ρ → ρ}
    (place : place? fields "default" = some (i, ⟨names, false, Json.bool.map set⟩)) (flag : Bool)
    (shown : ∀ r, view (set flag r) = set flag (view r)) (unset : set false t = t)
    (onward : Fill view fields depth (i + 1) (set flag t) os u) :
    Fill view fields depth i t
      ((if flag then member "default" (.bool true) else none) :: os) u := by
  cases flag with
  | false =>
    rw [unset] at onward
    exact .skip (getElem?_of_place place) rfl onward
  | true => exact .member place (reads_bool true depth) shown onward

theorem Cni.Dns.reads (dns : Cni.Dns) (depth : Nat) :
    Reads Cni.Dns.decoder dns.toJson (depth + 2) (· = dns) := by
  have whole : Reads Cni.Dns.decoder dns.toJson (depth + 2) fun r => id r = dns := by
    apply Fill.reads
    refine Fill.texts rfl dns.nameservers (by intros; rfl) (by rfl) ?_
    refine Fill.text rfl dns.domain (by intros; rfl) (by rfl) ?_
    refine Fill.texts rfl dns.search (by intros; rfl) (by rfl) ?_
    refine Fill.texts rfl dns.options (by intros; rfl) (by rfl) ?_
    exact Fill.done (Nat.le_refl 4)
  exact whole

theorem Cni.Dns.reads_option (dns : Cni.Dns) (depth : Nat) :
    Reads (option Cni.Dns.decoder) dns.toJson (depth + 2) (· = some dns) := by
  apply (Json.reads_option (dns.reads depth) (by simp [Cni.Dns.toJson, objectOf])).mono
  rintro _ ⟨r, rfl, rfl⟩
  rfl

theorem gives_mtu : Gives Cni.mtuDecoder fun _ _ => True := by
  have small : Gives ((natBelow UInt32.size).map UInt32.ofNat) fun _ _ => True :=
    (gives_natBelow _).map fun _ _ _ => trivial
  exact (gives_option small).mono fun _ _ _ => trivial

theorem Cni.Dns.gives : Gives Cni.Dns.decoder fun _ _ => True := by
  have texts := gives_list gives_string
  have whole : Gives Cni.Dns.decoder fun depth _ => 0 < depth ∧ True := by
    refine @gives_record _ _ (fun _ _ => True) _ ?_ (fun _ => trivial)
    simp only [List.mem_cons, List.not_mem_nil, or_false, forall_eq_or_imp, forall_eq]
    refine ⟨?nameservers, ?domain, ?search, ?options⟩
    case nameservers => exact keeps_field texts (by intros; trivial) _ _
    case domain => exact keeps_field gives_string (by intros; trivial) _ _
    case search => exact keeps_field texts (by intros; trivial) _ _
    case options => exact keeps_field texts (by intros; trivial) _ _
  exact whole.mono fun _ _ _ => trivial

namespace StatusEntry

/-- An entry with the reals of its device info set aside. -/
def rough (e : StatusEntry) : StatusEntry := { e with deviceInfo := e.deviceInfo.map Value.rough }

theorem rough_inj {d e : StatusEntry} (same : d.rough = e.rough) :
    d.name = e.name ∧ d.interface = e.interface ∧ d.isDefault = e.isDefault := by
  unfold rough at same
  obtain ⟨name, interface, -, -, -, isDefault, -⟩ := StatusEntry.mk.inj same
  exact ⟨name, interface, isDefault⟩

/-- An entry whose device info is not null and has at most so many levels. -/
def Sound (depth : Nat) (e : StatusEntry) : Prop :=
  ∀ v ∈ e.deviceInfo, v ≠ .null ∧ v.Sound depth

theorem fill_device {e : StatusEntry} (sound : e.Sound depth)
    {fields : List (Json.Field StatusEntry)} {t u : StatusEntry}
    (place : place? fields "device-info" =
      some (i, ⟨names, false, (option value).map fun v r => { r with deviceInfo := v }⟩))
    (unset : t.deviceInfo = none)
    (onward : Fill rough fields depth (i + 1)
      { t with deviceInfo := e.deviceInfo.map Value.rough } os u) :
    Fill rough fields depth i t (optionalMember "device-info" e.deviceInfo :: os) u := by
  cases device : e.deviceInfo with
  | none =>
    rw [device, Option.map_none, ← unset] at onward
    exact .skip (getElem?_of_place place) rfl onward
  | some v =>
    rw [device, Option.map_some] at onward
    obtain ⟨present, levels⟩ := sound v device
    have changes : Reads ((option value).map fun v (r : StatusEntry) => { r with deviceInfo := v })
        v depth fun change => ∀ r, r.rough = t →
          (change r).rough = { t with deviceInfo := some v.rough } := by
      apply (reads_option (reads_value levels) present).map
      rintro _ ⟨w, rfl, same⟩ r rfl
      simp only [rough, Option.map_some, same]
    exact .put place changes onward

theorem reads {e : StatusEntry} (sound : e.Sound (depth + 2)) :
    Reads decoder e.toJson (depth + 3) fun r => r.rough = e.rough := by
  apply Fill.reads
  refine Fill.member rfl (reads_string e.name _) (by intros; rfl) ?_
  refine Fill.text rfl e.interface (by intros; rfl) (by rfl) ?_
  refine Fill.texts rfl e.ips (by intros; rfl) (by rfl) ?_
  refine Fill.text rfl e.mac (by intros; rfl) (by rfl) ?_
  refine fill_mtu rfl e.mtu (by intros; rfl) (by rfl) ?_
  refine fill_default rfl e.isDefault (by intros; rfl) (by rfl) ?_
  refine Fill.member rfl (e.dns.reads_option depth) (by intros; rfl) ?_
  refine fill_device sound rfl (by rfl) ?_
  refine Fill.texts rfl e.gateway (by intros; rfl) (by rfl) ?_
  exact Fill.done (Nat.le_refl 9)

theorem keeps_other {α : Type} {d : Decoder α} {good : Nat → α → Prop} (h : Gives d good)
    {set : α → StatusEntry → StatusEntry} (same : ∀ a r, (set a r).deviceInfo = r.deviceInfo)
    (names : List String) (required : Bool) : Keeps Sound ⟨names, required, d.map set⟩ := by
  apply keeps_field h
  intro depth a _ r sound
  unfold Sound
  rw [same]
  exact sound

theorem gives_decoder : Gives decoder fun depth e => 0 < depth ∧ e.Sound (depth - 1) := by
  apply gives_record
  · simp only [List.mem_cons, List.not_mem_nil, or_false, forall_eq_or_imp, forall_eq]
    have texts := gives_list gives_string
    refine ⟨?name, ?interface, ?ips, ?mac, ?mtu, ?default, ?dns, ?device, ?gateway⟩
    case name => exact keeps_other gives_string (by intros; rfl) _ _
    case interface => exact keeps_other gives_string (by intros; rfl) _ _
    case ips => exact keeps_other texts (by intros; rfl) _ _
    case mac => exact keeps_other gives_string (by intros; rfl) _ _
    case mtu => exact keeps_other gives_mtu (by intros; rfl) _ _
    case default => exact keeps_other gives_bool (by intros; rfl) _ _
    case dns => exact keeps_other (gives_option Cni.Dns.gives) (by intros; rfl) _ _
    case device =>
      apply keeps_field gives_optionalValue
      intro depth device sound r _
      exact sound
    case gateway => exact keeps_other texts (by intros; rfl) _ _
  · intro depth v mem
    cases mem

end StatusEntry

namespace Status

theorem tokens_joined (vs : List Value) (rest : List Symbol) :
    tokens (symbols (joinWith "," (vs.map Value.indented)).toList ++ .char ']' :: rest) =
      listTokens vs ++ .closing .square :: tokens rest := by
  have ends : Stops (.char ']' :: rest) :=
    stops_cons (by decide) (by decide) (by decide) (by decide)
  induction vs with
  | nil => simp [joinWith, listTokens, tokens_closeSquare]
  | cons v vs ih =>
    cases vs with
    | nil =>
      have one := tokens_layOut v 0 ends
      simpa [joinWith, Value.indented, listTokens, itemTokens, tokens_closeSquare] using one
    | cons w vs =>
      have comma : Stops (.char ',' ::
          (symbols (joinWith "," ((w :: vs).map Value.indented)).toList ++ .char ']' :: rest)) :=
        stops_cons (by decide) (by decide) (by decide) (by decide)
      have head := tokens_layOut v 0 comma
      rw [tokens_comma, ih] at head
      simpa [joinWith, Value.indented, listTokens, itemTokens] using head

theorem serialize_symbols (es : List StatusEntry) :
    Symbol.ofText (serialize es) = .char '[' :: (symbols (joinWith ","
      ((es.map StatusEntry.toJson).map Value.indented)).toList ++ [.char ']']) := by
  have texts : es.map (·.toJson.indented) =
      (es.map StatusEntry.toJson).map Value.indented := by simp
  simp [serialize, texts, Symbol.ofText, symbols]

theorem tokens_serialize (es : List StatusEntry) :
    tokens (Symbol.ofText (serialize es)) =
      (Value.array (es.map StatusEntry.toJson)).tokens := by
  rw [serialize_symbols, tokens_openSquare, tokens_joined, array_tokens]
  rfl

theorem not_blank_serialize (es : List StatusEntry) :
    (trim (serialize es).toList).isEmpty = false := by
  obtain ⟨more, front⟩ : ∃ more, (serialize es).toList = '[' :: more := by
    simp [serialize]
  have bracket : isBlank '[' = false := by decide
  have start : trimStart ('[' :: more) = '[' :: more := by simp [trimStart, bracket]
  rw [front, Bool.eq_false_iff]
  intro blank
  simp only [trim, start, List.isEmpty_reverse, List.isEmpty_iff] at blank
  have also := List.dropWhile_eq_nil_iff.mp blank '[' (by simp)
  rw [bracket] at also
  cases also

def deviceDepth : Nat := greatestDepth - 2

theorem parse_sound {raw : String} {es : List StatusEntry} (read : parse raw = .ok es) :
    ∀ e ∈ es, e.Sound deviceDepth := by
  unfold parse at read
  split at read
  · obtain rfl := Except.ok.inj read
    simp
  · split at read
    · rename_i found decoded
      obtain rfl := Except.ok.inj read
      have sound := (gives_option (gives_list StatusEntry.gives_decoder)).decode decoded
      intro e mem
      cases found with
      | none => cases mem
      | some es => exact ((sound es rfl).2 e mem).2
    · cases read

theorem parse_written {es : List StatusEntry} (sound : ∀ e ∈ es, e.Sound deviceDepth) :
    ∃ found, parse (serialize es) = .ok found ∧
      found.map StatusEntry.rough = es.map StatusEntry.rough := by
  have each : ∀ e ∈ es, Reads StatusEntry.decoder e.toJson 126 fun r => r.rough = e.rough :=
    fun e mem => StatusEntry.reads (sound e mem)
  have whole : Reads (option (list StatusEntry.decoder)) _ greatestDepth _ :=
    reads_option (reads_list each) (by simp)
  obtain ⟨_, read, found, rfl, same⟩ := whole.decode (tokens_serialize es)
  have decoded : decodeText (option (list StatusEntry.decoder)) (serialize es) =
      .ok (some found) := read
  refine ⟨found, ?_, ?_⟩
  · unfold parse
    simp only [not_blank_serialize, Bool.false_eq_true, if_false, decoded, Option.getD_some]
  · have equal : List.Forall₂ (· = ·) (found.map StatusEntry.rough) (es.map StatusEntry.rough) :=
      List.forall₂_map_left_iff.mpr (List.forall₂_map_right_iff.mpr same.flip)
    rwa [List.forall₂_eq_eq_eq] at equal

theorem reported_sound {o : Outcome} {e : StatusEntry} (reported : o.reported? = some e)
    (depth : Nat) : e.Sound depth := by
  simp only [Outcome.reported?, Option.bind_eq_bind, Option.bind_eq_some_iff] at reported
  obtain ⟨response, -, result, -, entry⟩ := reported
  have bare : e.deviceInfo = none := by rw [← Option.some.inj entry, StatusEntry.ofResult]
  intro v mem
  rw [bare] at mem
  cases mem

theorem merge_sound {current : List StatusEntry} {depth : Nat}
    (sound : ∀ e ∈ current, e.Sound depth) (added : List Outcome) (removed : List Attachment) :
    ∀ e ∈ merge current added removed, e.Sound depth := by
  intro e mem
  rcases List.mem_append.mp mem with kept | new
  · exact sound e (List.mem_of_mem_filter kept)
  · obtain ⟨o, -, reported⟩ := List.mem_filterMap.mp new
    exact reported_sound reported depth

end Status

theorem Pod.observed_sound {pod : Pod} {observed : List StatusEntry}
    (read : pod.observed = .ok observed) : ∀ e ∈ observed, e.Sound Status.deviceDepth := by
  unfold Pod.observed at read
  split at read
  · exact Status.parse_sound read
  · obtain rfl := Except.ok.inj read
    simp

end Hotplug
