import Hotplug.Proofs.Json.Fields
import Hotplug.Sandbox.Info
/-!
What the text of a status tells. A document is read as a status as its schema has it: the runtime
specification, its part for the system and the namespaces in that may each be left out, the system
may be null, and a namespace has to name its type. Members beyond these may say anything.
-/
namespace Hotplug.Sandbox

open Hotplug.Json

variable {doc : Document} {n : LinuxNamespace}

def namespaceOf? (doc : Document) : Option LinuxNamespace := do
  let docs ← doc.fields? ["type", "path"]
  let type ← once? none Document.text? (docs "type")
  let path ← once? (some "") Document.text? (docs "path")
  return { type, path }

def linuxOf? : Document → Option (List LinuxNamespace) :=
  Document.sole? "namespaces" [] (Document.items? namespaceOf?)

def specOf? : Document → Option (List LinuxNamespace) :=
  Document.sole? "linux" [] fun doc => (doc.orNull? linuxOf?).map (·.getD [])

def infoOf? : Document → Option Info :=
  Document.sole? "runtimeSpec" {} fun doc => (specOf? doc).map Info.mk

/-- A document that is spelled in the text is this status. -/
def Reports (text : String) (info : Info) : Prop :=
  ∃ doc : Document, doc.Spelled text.toList ∧ infoOf? doc = some info

def namespaceTells : List (Document → (LinuxNamespace → LinuxNamespace) → Prop) := [
  Sets Document.text? fun v n => { n with type := v },
  Sets Document.text? fun v n => { n with path := v }]

theorem alone_type : Alone namespaceTells 0 LinuxNamespace.type Document.text? where
  own := by
    rintro _ ⟨⟩ doc _ ⟨text, told, rfl⟩ n
    exact told
  others := by
    rintro (_ | _ | j) _ ne at_ doc change told n
    · exact absurd rfl ne
    · cases at_
      obtain ⟨text, -, rfl⟩ := told
      rfl
    · cases at_

theorem alone_path : Alone namespaceTells 1 LinuxNamespace.path Document.text? where
  own := by
    rintro _ ⟨⟩ doc _ ⟨text, told, rfl⟩ n
    exact told
  others := by
    rintro (_ | _ | j) _ ne at_ doc change told n
    · cases at_
      obtain ⟨text, -, rfl⟩ := told
      rfl
    · exact absurd rfl ne
    · cases at_

def namespaceFields : List (Json.Field LinuxNamespace) := [
  requiredField "type" string fun v n => { n with type := v },
  field "path" string fun v n => { n with path := v }]

theorem named_namespace : Named namespaceFields ["type", "path"] :=
  ⟨by decide, rfl⟩

theorem namespaceOf?_of_recorded (recorded : Recorded namespaceFields namespaceTells {} doc n) :
    namespaceOf? doc = some n := by
  obtain ⟨docs, parts, each⟩ := recorded.fields_once named_namespace
  have type := each String 0 _ "type" LinuxNamespace.type _ alone_type rfl rfl
  have path := each String 1 _ "path" LinuxNamespace.path _ alone_path rfl rfl
  apply Option.bind_eq_some_iff.mpr ⟨docs, parts, ?_⟩
  apply Option.bind_eq_some_iff.mpr ⟨n.type, type, ?_⟩
  exact Option.bind_eq_some_iff.mpr ⟨n.path, path, rfl⟩

theorem recorded_namespace :
    Recorded namespaceFields namespaceTells {} doc n ↔ namespaceOf? doc = some n := by
  constructor
  · exact namespaceOf?_of_recorded
  · intro said
    obtain ⟨docs, parts, said'⟩ := Option.bind_eq_some_iff.mp said
    obtain ⟨type, named, said'⟩ := Option.bind_eq_some_iff.mp said'
    obtain ⟨path, located, -⟩ := Option.bind_eq_some_iff.mp said'
    have found : ∃ m, Recorded namespaceFields namespaceTells {} doc m := by
      apply exists_recorded named_namespace parts
      rintro (_ | _ | i) f _ ⟨⟩ ⟨⟩
      · rcases once?_eq_some named with ⟨-, none⟩ | ⟨doc, only, told⟩
        · cases none
        · exact .inr ⟨doc, _, _, only, rfl, type, told, rfl⟩
      · rcases once?_eq_some located with ⟨none, -⟩ | ⟨doc, only, told⟩
        · exact .inl ⟨none, rfl⟩
        · exact .inr ⟨doc, _, _, only, rfl, path, told, rfl⟩
    obtain ⟨m, recorded⟩ := found
    obtain rfl := Option.some.inj (said.symm.trans (namespaceOf?_of_recorded recorded))
    exact recorded

section
variable (depth : Nat)

theorem hears_namespace : Hears Info.namespaceDecoder (depth + 1) namespaceOf? := by
  have texts := hears_string depth
  have complete := texts.sets_complete fun v (n : LinuxNamespace) => { n with type := v }
  have complete' := texts.sets_complete fun v (n : LinuxNamespace) => { n with path := v }
  have faithful := texts.sets_faithful fun v (n : LinuxNamespace) => { n with type := v }
  have faithful' := texts.sets_faithful fun v (n : LinuxNamespace) => { n with path := v }
  exact hears_record (.cons complete (.cons complete' .nil)) (.cons faithful (.cons faithful' .nil))
    fun _ _ => recorded_namespace

theorem hears_linux : Hears Info.linuxDecoder (depth + 3) linuxOf? := by
  have listed := (hears_namespace depth).list.sole "namespaces" id []
  simp only [Option.map_id_fun] at listed
  exact listed

theorem hears_spec : Hears Info.specDecoder (depth + 4) specOf? :=
  ((hears_linux depth).option rfl).sole "linux" (·.getD []) []

theorem hears_info : Hears Info.decoder (depth + 5) infoOf? :=
  (hears_spec depth).sole "runtimeSpec" Info.mk {}

end

theorem parse_iff (text : String) (info : Info) :
    Info.parse text = .ok info ↔ Reports text info := by
  have hears := hears_info 122
  exact decodeText_iff hears.complete hears.faithful text info

end Hotplug.Sandbox
