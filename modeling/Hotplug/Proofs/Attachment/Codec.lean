import Hotplug.Attachment.Parse
import Hotplug.Proofs.Json.Integral
import Hotplug.Proofs.Json.Rendering
/-!
Attachments that were written as JSON are read back, but for the reals in their arguments. How
the document is laid out does not matter.
-/
namespace Hotplug.Attachment

open Hotplug.Json Hotplug.Text

variable {depth i : Nat} {names : List String} {os : List (Option (String × Value))}

/-- An attachment with the reals of its arguments set aside. -/
def rough (a : Attachment) : Attachment := { a with arguments := a.arguments.map roughMembers }

/-- An attachment whose arguments have distinct names and at most so many levels. -/
def Sound (depth : Nat) (a : Attachment) : Prop :=
  ∀ members ∈ a.arguments, (Value.object members).Sound (depth + 1)

theorem fill_arguments {a : Attachment} (sound : a.Sound depth)
    {fields : List (Json.Field Attachment)} {t u : Attachment}
    (place : place? fields "cni-args" =
      some (i, ⟨names, false, (option members).map fun v r => { r with arguments := v }⟩))
    (unset : t.arguments = none)
    (onward : Fill rough fields (depth + 1) (i + 1)
      { t with arguments := a.arguments.map roughMembers } os u) :
    Fill rough fields (depth + 1) i t
      (optionalMember "cni-args" (a.arguments.map .object) :: os) u := by
  cases arguments : a.arguments with
  | none =>
    rw [arguments, Option.map_none, ← unset] at onward
    exact .skip (getElem?_of_place place) rfl onward
  | some ms =>
    rw [arguments, Option.map_some] at onward
    obtain ⟨distinct, levels⟩ := sound ms arguments
    have changes : Reads ((option members).map fun v (r : Attachment) => { r with arguments := v })
        (.object ms) (depth + 1) fun change => ∀ r, r.rough = t →
          (change r).rough = { t with arguments := some (roughMembers ms) } := by
      have each := reads_membersOf (fun m mem => reads_value (levels m mem)) distinct
      apply (reads_option each (by simp)).map
      rintro _ ⟨found, rfl, same⟩ r rfl
      simp only [rough, Option.map_some, roughMembers_congr same]
    exact .put place changes onward

theorem reads {a : Attachment} (sound : a.Sound depth) :
    Reads decoder a.toJson (depth + 2) fun r => r.rough = a.rough := by
  apply Fill.reads
  refine Fill.member rfl (reads_string a.name _) (by intros; rfl) ?_
  refine Fill.text rfl a.ns (by intros; rfl) (by rfl) ?_
  refine Fill.texts rfl a.ips (by intros; rfl) (by rfl) ?_
  refine Fill.text rfl a.mac (by intros; rfl) (by rfl) ?_
  refine Fill.text rfl a.infinibandGuid (by intros; rfl) (by rfl) ?_
  refine Fill.text rfl a.interface (by intros; rfl) (by rfl) ?_
  refine fill_arguments sound rfl (by rfl) ?_
  exact Fill.done (Nat.le_refl 7)

/-- The text is a JSON list of the attachments, with whatever blanks and escapes. -/
def Lists (document : String) (as : List Attachment) : Prop :=
  tokens (Symbol.ofText document) = (Value.array (as.map toJson)).tokens

theorem lists_compact (as : List Attachment) :
    Lists (Value.array (as.map toJson)).compact as :=
  tokens_compact _

theorem lists_indented (as : List Attachment) :
    Lists (Value.array (as.map toJson)).indented as :=
  tokens_indented _

def argumentsDepth : Nat := greatestDepth - 3

variable {document : String} {as : List Attachment}

theorem Lists.isDocument (lists : Lists document as) : isDocument document = true := by
  have opens := lists
  rw [Lists, array_tokens] at opens
  obtain ⟨c, mem, bracket⟩ := List.mem_map.mp (mem_of_tokens_openSquare opens)
  apply List.any_eq_true.mpr
  exact ⟨c, mem, by simp [Symbol.char.inj bracket]⟩

theorem Lists.readAll (lists : Lists document as) (sound : ∀ a ∈ as, a.Sound argumentsDepth) :
    ∃ found, readAll document = .ok found ∧ found.map rough = as.map rough := by
  have each : ∀ a ∈ as, Reads decoder a.toJson 126 fun r => r.rough = a.rough :=
    fun a mem => reads (sound a mem)
  have whole : Reads (option (list decoder)) _ greatestDepth _ :=
    reads_option (reads_list each) (by simp)
  obtain ⟨_, read, found, rfl, same⟩ := whole.decode lists
  have decoded : decodeText (option (list decoder)) document = .ok (some found) := read
  refine ⟨found, ?_, ?_⟩
  · simp only [Attachment.readAll, lists.isDocument, if_true, decoded, Option.getD_some]
  · have equal : List.Forall₂ (· = ·) (found.map rough) (as.map rough) :=
      List.forall₂_map_left_iff.mpr (List.forall₂_map_right_iff.mpr same.flip)
    rwa [List.forall₂_eq_eq_eq] at equal

theorem eq_of_rough {a b : Attachment}
    (integral : ∀ members ∈ b.arguments, (Value.object members).Integral)
    (same : a.rough = b.rough) : a = b := by
  obtain ⟨name, ns, ips, mac, guid, interface, arguments⟩ := a
  obtain ⟨name', ns', ips', mac', guid', interface', arguments'⟩ := b
  obtain ⟨rfl, rfl, rfl, rfl, rfl, rfl, arguments_eq⟩ := Attachment.mk.inj same
  dsimp only at integral arguments_eq
  congr 1
  cases arguments' with
  | none => exact Option.map_eq_none_iff.mp arguments_eq
  | some members =>
    obtain ⟨found, rfl, rough⟩ := Option.map_eq_some_iff.mp arguments_eq
    have objects : (Value.object found).rough = (Value.object members).rough := by
      rw [Value.rough, Value.rough, rough]
    rw [Value.object.inj ((integral members rfl).eq_of_rough objects)]

/-- Attachments without arguments come back as they were. -/
theorem Lists.readAll_of_bare (lists : Lists document as)
    (bare : ∀ a ∈ as, a.arguments = none) : Attachment.readAll document = .ok as := by
  have sound : ∀ a ∈ as, a.Sound argumentsDepth := by
    intro a mem members present
    rw [bare a mem] at present
    cases present
  obtain ⟨found, read, same⟩ := lists.readAll sound
  have whole : found = as := by
    apply eq_of_map_eq _ same
    intro a mem w
    apply eq_of_rough
    intro members present
    rw [bare a mem] at present
    cases present
  rw [read, whole]

end Hotplug.Attachment
