import MessagingGateway.Data.Identifier
import Mathlib.Logic.Function.Basic

/-! The `message.send` queue as the gateway relies on it: adding an existing job id is a
no-op, finished jobs are kept, and only an explicit remove takes a job out. -/
namespace MessagingGateway.Outbound

/-- `${messageId}`, or `${messageId}-${suffix}` for a manual retry. -/
structure JobId where
  messageId : Uuid
  suffix : Option String
  deriving DecidableEq

namespace JobId

def own (m : Uuid) : JobId := ⟨m, none⟩

def text : JobId → String
  | ⟨m, none⟩ => m.text
  | ⟨m, some suffix⟩ => m.text ++ ("-" ++ suffix)

/-- Job ids are compared as strings in Redis; the pair loses nothing. -/
theorem text_injective : Function.Injective text := by
  rintro ⟨m, s⟩ ⟨m', s'⟩ h
  have key : ∀ (a b : Uuid) (t : String), a.text = b.text ++ ("-" ++ t) → False := by
    intro a b t h
    have h : a.text ++ "" = b.text ++ ("-" ++ t) := by simpa using h
    have hlen := congrArg String.length (Uuid.append_inj h).2
    rw [String.length_append, show ("-" : String).length = 1 by decide, String.length_empty] at hlen
    omega
  cases s with
  | none =>
    cases s' with
    | none => rw [Uuid.ext_text (show m.text = m'.text from h)]
    | some t => exact (key m m' t h).elim
  | some s =>
    cases s' with
    | none => exact (key m' m s h.symm).elim
    | some t =>
      obtain ⟨rfl, hst⟩ := Uuid.append_inj h
      rw [(String.append_right_inj _).mp hst]

end JobId

inductive JobState where
  | waiting | delayed | active | completed | failed
  deriving DecidableEq

/-- BullMQ will still run the job, or is running it. -/
def JobState.Live : JobState → Prop
  | .waiting | .delayed | .active => True
  | .completed | .failed => False

instance : DecidablePred JobState.Live := fun state => by
  cases state <;> first | exact .isTrue trivial | exact .isFalse id

structure Job where
  messageId : Uuid
  state : JobState
  attemptsMade : Nat
  attempts : Nat
  stalled : Nat
  deriving DecidableEq

abbrev Queue := JobId → Option Job

/-- Three attempts, sixty seconds apart, for every producer of send jobs. -/
def SEND_ATTEMPTS : Nat := 3

/-- A job stalled more often than this is moved to failed. -/
def MAX_STALLED_COUNT : Nat := 1

namespace Queue

def add (q : Queue) (id : JobId) (m : Uuid) : Queue :=
  if (q id).isSome then q else Function.update q id (some ⟨m, .waiting, 0, SEND_ATTEMPTS, 0⟩)

/-- `job.remove()` throws on a job a worker has locked. -/
def remove (q : Queue) (id : JobId) : Option Queue :=
  match q id with
  | some job => if job.state = .active then none else some (Function.update q id none)
  | none => some q

/-- A live job exists for the message, under whatever id. -/
def Live (q : Queue) (m : Uuid) : Prop :=
  ∃ id job, q id = some job ∧ job.messageId = m ∧ job.state.Live

theorem add_of_isSome {q : Queue} {id : JobId} (h : (q id).isSome) (m : Uuid) : q.add id m = q := by
  simp [add, h]

theorem add_of_none {q : Queue} {id : JobId} (h : q id = none) (m : Uuid) :
    q.add id m = Function.update q id (some ⟨m, .waiting, 0, SEND_ATTEMPTS, 0⟩) := by
  simp [add, h]

theorem add_of_ne (q : Queue) {id id' : JobId} (h : id' ≠ id) (m : Uuid) : q.add id m id' = q id' := by
  unfold add
  split
  · rfl
  · exact Function.update_of_ne h _ _

end Queue
end MessagingGateway.Outbound
