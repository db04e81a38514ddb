import Mathlib.Data.List.Basic
import Mathlib.Data.List.Nodup
import Mathlib.Data.String.Basic

/-! Row identifiers. Every primary key of the schema defaults to `uuid()`, and a UUID is
always 36 characters long, so keys that start with one can be taken apart again. -/
namespace MessagingGateway

structure Uuid where
  text : String
  length_eq : text.length = 36
  deriving DecidableEq, Repr

namespace Uuid

theorem ext_text {a b : Uuid} (h : a.text = b.text) : a = b := by
  cases a
  cases b
  simpa using h

/-- Two texts that start with a UUID agree only if the UUIDs and the rests agree. -/
theorem append_inj {a b : Uuid} {s t : String} (h : a.text ++ s = b.text ++ t) : a = b ∧ s = t := by
  have hl : a.text.toList ++ s.toList = b.text.toList ++ t.toList := by
    rw [← String.toList_append, h, String.toList_append]
  have hlen : a.text.toList.length = b.text.toList.length := by
    rw [String.length_toList, String.length_toList, a.length_eq, b.length_eq]
  obtain ⟨hab, hst⟩ := List.append_inj hl hlen
  exact ⟨ext_text (String.toList_inj.mp hab), String.toList_inj.mp hst⟩

end Uuid

/-- A `Set` has no element twice. -/
theorem eraseDups_nodup (ids : List Uuid) : ids.eraseDups.Nodup := by
  induction hlength : ids.length using Nat.strong_induction_on generalizing ids with
  | _ n ih =>
    cases ids with
    | nil => exact List.nodup_nil
    | cons id ids =>
      rw [List.eraseDups_cons, List.nodup_cons]
      have hshort : (ids.filter fun b => !b == id).length < n := by
        have hle := List.length_filter_le (fun b => !b == id) ids
        rw [List.length_cons] at hlength
        omega
      refine ⟨?_, ih _ hshort _ rfl⟩
      rw [List.mem_eraseDups, List.mem_filter]
      simp

theorem eraseDups_of_nodup {ids : List Uuid} (h : ids.Nodup) : ids.eraseDups = ids := by
  induction ids with
  | nil => rfl
  | cons id ids ih =>
    rw [List.nodup_cons] at h
    rw [List.eraseDups_cons, List.filter_eq_self.mpr, ih h.2]
    intro other hother
    have hne : other ≠ id := by
      rintro rfl
      exact h.1 hother
    simpa using hne

instance : LawfulBEq (Uuid × String) := inferInstance

/-- `if (value)` on an optional string: an empty string counts as absent. -/
def truthy : Option String → Option String
  | some "" => none
  | value => value

theorem truthy_eq_some {o : Option String} {s : String} (h : truthy o = some s) : o = some s := by
  unfold truthy at h
  split at h
  · exact absurd h (by simp)
  · exact h

theorem truthy_of_ne {s : String} (h : s ≠ "") : truthy (some s) = some s := by
  unfold truthy
  split
  · simp_all
  · rfl

/-- A computation that may throw has returned only if each of its steps has. -/
theorem bind_ok {ε α β : Type} {x : Except ε α} {f : α → Except ε β} {b : β} (h : x >>= f = .ok b) :
    ∃ a, x = .ok a ∧ f a = .ok b := by
  cases x with
  | error e => exact absurd h (by simp [bind, Except.bind])
  | ok a => exact ⟨a, rfl, h⟩

/-- Channel kinds of the schema's `channel_type` enum. -/
inductive ChannelType where
  | sms | whatsapp | signal | mock
  deriving DecidableEq, Repr

def ChannelType.name : ChannelType → String
  | .sms => "sms"
  | .whatsapp => "whatsapp"
  | .signal => "signal"
  | .mock => "mock"

end MessagingGateway
