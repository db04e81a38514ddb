import MessagingGateway.Sending.Send
import MessagingGateway.Transition.Observed
import Mathlib.Algebra.Notation.Pi.Basic

/-! Any number of requests under one idempotency key, await by await, while others write what
they like to everything but that key. -/
namespace MessagingGateway.Sending
open Transition

/-- A key that `if (idempotencyKey)` lets through. -/
structure RequestKey where
  text : String
  ne_empty : text ≠ ""

def Phase.target? : Phase → Option Target
  | .resolve | .enqueue _ => none
  | .findKey target | .findMessage target _ | .checkAttachments target | .findConversation target
  | .transact target _ => some target

/-- A request at its await or answered, with the target written into its body. -/
structure Request where
  dto : SendMessageDto
  target : Option Target
  state : Phase ⊕ Outcome

structure Requests where
  world : World
  calls : ℕ → Option Request

inductive Action where
  | post (c : ℕ) (dto : SendMessageDto)
  | advance (c : ℕ) (a : Answer)
  | fail (c : ℕ)
  | write (db : Database)

namespace Requests
variable (s : Requests) (key : RequestKey)

def setCall (c : ℕ) (r : Request) : Requests := { s with calls := Function.update s.calls c (some r) }

/-- The await of a call is answered. -/
def answer (c : ℕ) (r : Request) (phase : Phase) (a : Answer) : Requests :=
  let (w, state) := phase.next r.dto (some key.text) a s.world
  { s with world := w }.setCall c { r with
    target := (state.getLeft?.bind Phase.target?).or r.target
    state := state }

def step : Action → Option Requests
  | .post c dto => if (s.calls c).isNone then some (s.setCall c ⟨dto, none, .inl .resolve⟩) else none
  | .advance c a => (s.calls c).bind fun r => r.state.getLeft?.map fun phase => s.answer key c r phase a
  | .fail c => (s.calls c).bind fun r => r.state.getLeft?.map fun _ => s.setCall c { r with state := .inr .threw }
  | .write db =>
    if db.keys key.text = s.world.db.keys key.text then some { s with world := { s.world with db := db } } else none

end Requests

/-- Whatever the database holds at the start. -/
def requests (key : RequestKey) : System Requests Action where
  init s := s.world.enqueued = [] ∧ ∀ c, s.calls c = none
  step s := s.step key

/-- How many rows the requests have put into the table of messages under each id, read off the
table before and after their awaits. -/
def made (s : Requests) : Action → Requests → (Uuid → ℕ) → Uuid → ℕ
  | .advance _ _, t, rows => fun m =>
    if (s.world.db.messages m).isNone ∧ (t.world.db.messages m).isSome then rows m + 1 else rows m
  | _, _, rows => rows

def counted (key : RequestKey) : System (Requests × (Uuid → ℕ)) Action := (requests key).observed 0 made

section
variable {key : RequestKey} {w w' : World} {rows rows' : Uuid → ℕ} {r r' : Request} {m : Uuid}
  {before : Option IdempotencyKey}

/-- The key names the message, with the hash of this request. -/
def Recorded (key : RequestKey) (w : World) (r : Request) (m : Uuid) : Prop :=
  ∃ target, r.target = some target ∧ w.db.keys key.text = some ⟨hashRequest r.dto target, m⟩

/-- What a call knows where it stands. -/
def Fits (key : RequestKey) (w : World) (rows : Uuid → ℕ) (r : Request) : Prop :=
  match r.state with
  | .inl .resolve => True
  | .inl (.findMessage target m) => r.target = some target ∧ w.db.keys key.text = some ⟨hashRequest r.dto target, m⟩
  | .inl (.enqueue response) => Recorded key w r response.id ∧ rows = Pi.single response.id 1 ∧ w.enqueued = []
  | .inl phase => r.target = phase.target?
  | .inr (.returned response) => Recorded key w r response.id
  | .inr _ => True

def Request.Enqueues (r : Request) : Prop := ∃ response, r.state = .inl (.enqueue response)

/-- The key is as it was before the requests, or it names the one message they have made. -/
structure AtMostOne (key : RequestKey) (before : Option IdempotencyKey) (s : Requests) (rows : Uuid → ℕ) : Prop where
  fits : ∀ c r, s.calls c = some r → Fits key s.world rows r
  lone : ∀ c c' r r', s.calls c = some r → s.calls c' = some r' → r.Enqueues → r'.Enqueues → c = c'
  rows : rows = 0 ∧ s.world.enqueued = [] ∧ s.world.db.keys key.text = before ∨
    ∃ row, s.world.db.keys key.text = some row ∧ rows = Pi.single row.responseRef 1 ∧
      s.world.enqueued <+: [row.responseRef]

/-- A call stands on the key alone, until its message is to be enqueued. -/
theorem Fits.mono (h : Fits key w rows r) (hkey : w'.db.keys key.text = w.db.keys key.text)
    (hmade : r.Enqueues → rows' = rows ∧ w'.enqueued = w.enqueued) : Fits key w' rows' r := by
  unfold Fits Recorded at *
  split at h
  · trivial
  · rwa [hkey]
  · rename_i response hstate
    obtain ⟨hrows, henqueued⟩ := hmade ⟨response, hstate⟩
    rwa [hkey, hrows, henqueued]
  · exact h
  · rwa [hkey]
  · trivial

/-- While the key is free, no call has found or made a message. -/
theorem Fits.early (h : Fits key w rows r) (hfree : w.db.keys key.text = none) :
    ¬ r.Enqueues ∧ ∀ w' rows', Fits key w' rows' r := by
  constructor
  · rintro ⟨response, hstate⟩
    simp only [Fits, hstate, Recorded, hfree] at h
    simp at h
  · intro w' rows'
    unfold Fits Recorded at *
    split at h <;> simp_all

@[simp] theorem setCall_world (s : Requests) (c : ℕ) (r : Request) : (s.setCall c r).world = s.world := rfl

theorem setCall_calls {s : Requests} {c c' : ℕ} (h : (s.setCall c r).calls c' = some r') :
    c' = c ∧ r' = r ∨ c' ≠ c ∧ s.calls c' = some r' := by
  simp only [Requests.setCall] at h
  rcases eq_or_ne c' c with rfl | hne
  · rw [Function.update_self] at h
    exact .inl ⟨rfl, (Option.some.inj h).symm⟩
  · rw [Function.update_of_ne hne] at h
    exact .inr ⟨hne, h⟩

/-- An await that leaves the messages alone makes none. -/
theorem made_same {s t : Requests} (a : Action) (h : t.world.db.messages = s.world.db.messages) :
    made s a t rows = rows := by
  cases a with
  | advance c a =>
    funext m
    refine if_neg ?_
    rintro ⟨hnone, hsome⟩
    rw [h, Option.isNone_iff_eq_none.mp hnone] at hsome
    cases hsome
  | _ => rfl

/-- The world as it is or with another database; the call goes on or ends. -/
theorem AtMostOne.setCall {s : Requests} (h : AtMostOne key before s rows) {c : ℕ} {db : Database}
    (hkey : db.keys key.text = s.world.db.keys key.text) (hfits : Fits key { s.world with db := db } rows r)
    (hquiet : ¬ r.Enqueues) : AtMostOne key before ({ s with world := { s.world with db := db } }.setCall c r)
      rows := by
  refine ⟨?_, ?_, ?_⟩
  · intro c' r' hc'
    rcases setCall_calls hc' with ⟨-, rfl⟩ | ⟨-, hc'⟩
    · exact hfits
    · exact (h.fits c' r' hc').mono hkey fun _ => ⟨rfl, rfl⟩
  · intro c₁ c₂ r₁ r₂ h₁ h₂ he₁ he₂
    rcases setCall_calls h₁ with ⟨-, rfl⟩ | ⟨-, h₁⟩
    · exact absurd he₁ hquiet
    · rcases setCall_calls h₂ with ⟨-, rfl⟩ | ⟨-, h₂⟩
      · exact absurd he₂ hquiet
      · exact h.lone c₁ c₂ r₁ r₂ h₁ h₂ he₁ he₂
  · simp only [setCall_world, hkey]
    exact h.rows

/-- The row of the one message is there, and the key is recorded with it. -/
theorem AtMostOne.commit {s : Requests} (h : AtMostOne key before s rows) {c : ℕ} {target : Target}
    {conversationId : Uuid} {a : Answer} {db' : Database} {response : SendMessageResponse}
    (hcommitted : Committed s.world.db r.dto target (some key.text) conversationId a db' response)
    (hstate : r'.state = .inl (.enqueue response) ∨ r'.state = .inr (.returned response)) (hdto : r'.dto = r.dto)
    (htarget' : r'.target = some target) :
    AtMostOne key before ({ s with world := { s.world with db := db' } }.setCall c r')
      (made s (.advance c a) ({ s with world := { s.world with db := db' } }.setCall c r') rows) := by
  have hfree := hcommitted.free key.text rfl
  have hkeyed := hcommitted.keyed key.text rfl
  rw [← hcommitted.response_id] at hkeyed
  obtain ⟨hnone, hempty⟩ : rows = 0 ∧ s.world.enqueued = [] := by
    rcases h.rows with ⟨hnone, hempty, -⟩ | ⟨row, hrow, -⟩
    · exact ⟨hnone, hempty⟩
    · exact absurd (hfree.symm.trans hrow) (by simp)
  have hrows : made s (.advance c a) ({ s with world := { s.world with db := db' } }.setCall c r') rows =
      Pi.single response.id 1 := by
    funext m
    rw [hcommitted.response_id]
    simp only [made, setCall_world, hcommitted.messages, hnone, Pi.zero_apply, Nat.zero_add]
    rcases eq_or_ne m a.id with rfl | hne
    · rw [Function.update_self, hcommitted.fresh, Pi.single_eq_same]
      rfl
    · rw [Function.update_of_ne hne, Pi.single_eq_of_ne hne, if_neg]
      cases s.world.db.messages m <;> simp
  have hrecorded : Recorded key { s.world with db := db' } r' response.id :=
    ⟨target, htarget', by rw [hdto]; exact hkeyed⟩
  have hfits : Fits key { s.world with db := db' } (Pi.single response.id 1) r' := by
    rcases hstate with hstate | hstate
    · simp only [Fits, hstate]
      exact ⟨hrecorded, trivial, hempty⟩
    · simp only [Fits, hstate]
      exact hrecorded
  rw [hrows]
  refine ⟨?_, ?_, .inr ⟨_, hkeyed, rfl, ?_⟩⟩
  · intro c' r₁ hc'
    rcases setCall_calls hc' with ⟨-, rfl⟩ | ⟨-, hc'⟩
    · exact hfits
    · exact ((h.fits c' r₁ hc').early hfree).2 _ _
  · intro c₁ c₂ r₁ r₂ h₁ h₂ he₁ he₂
    rcases setCall_calls h₁ with ⟨rfl, -⟩ | ⟨-, h₁⟩
    · rcases setCall_calls h₂ with ⟨rfl, -⟩ | ⟨-, h₂⟩
      · rfl
      · exact absurd he₂ ((h.fits c₂ r₂ h₂).early hfree).1
    · exact absurd he₁ ((h.fits c₁ r₁ h₁).early hfree).1
  · rw [setCall_world, hempty]
    exact List.nil_prefix

/-- The job of the one message is added. -/
theorem AtMostOne.enqueue {s : Requests} (h : AtMostOne key before s rows) {c : ℕ} {response : SendMessageResponse}
    (hr : s.calls c = some r) (hstate : r.state = .inl (.enqueue response)) :
    AtMostOne key before ({ s with world := { s.world with enqueued := s.world.enqueued ++ [response.id] } }.setCall c
      { r with state := .inr (.returned response) }) rows := by
  have hfits := h.fits c r hr
  simp only [Fits, hstate] at hfits
  obtain ⟨hrecorded, hrows, hempty⟩ := hfits
  have hother : ∀ c' r₁, c' ≠ c → s.calls c' = some r₁ → ¬ r₁.Enqueues := fun c' r₁ hne hc' he =>
    hne (h.lone c' c r₁ r hc' hr he ⟨response, hstate⟩)
  have hreturned : ¬ ({ r with state := .inr (.returned response) } : Request).Enqueues := by
    rintro ⟨response', hstate'⟩
    exact absurd hstate' (by simp)
  refine ⟨?_, ?_, ?_⟩
  · intro c' r₁ hc'
    rcases setCall_calls hc' with ⟨-, rfl⟩ | ⟨hne, hc'⟩
    · exact hrecorded
    · exact (h.fits c' r₁ hc').mono rfl fun he => absurd he (hother c' r₁ hne hc')
  · intro c₁ c₂ r₁ r₂ h₁ h₂ he₁ he₂
    rcases setCall_calls h₁ with ⟨rfl, rfl⟩ | ⟨hne₁, h₁⟩
    · exact absurd he₁ hreturned
    · exact absurd he₁ (hother c₁ r₁ hne₁ h₁)
  · obtain ⟨target, -, hkey⟩ := hrecorded
    refine .inr ⟨_, hkey, hrows, ?_⟩
    simp only [setCall_world, hempty, List.nil_append, List.prefix_rfl]

/-- An await that leaves the world as it is and enqueues nothing. -/
theorem AtMostOne.look {s : Requests} (h : AtMostOne key before s rows) {c : ℕ} {phase : Phase} {a : Answer}
    {state : Phase ⊕ Outcome} (hnext : phase.next r.dto (some key.text) a s.world = (s.world, state))
    (hfits : Fits key s.world rows { r with target := (state.getLeft?.bind Phase.target?).or r.target, state := state })
    (hquiet : ∀ response, state ≠ .inl (.enqueue response)) :
    AtMostOne key before (s.answer key c r phase a) (made s (.advance c a) (s.answer key c r phase a) rows) := by
  unfold Requests.answer
  rw [hnext, made_same]
  · exact h.setCall rfl hfits fun ⟨response, hstate⟩ => hquiet response hstate
  · rfl

theorem AtMostOne.answer {s : Requests} (h : AtMostOne key before s rows) {c : ℕ} {phase : Phase}
    (hr : s.calls c = some r) (hstate : r.state = .inl phase) (a : Answer) :
    AtMostOne key before (s.answer key c r phase a) (made s (.advance c a) (s.answer key c r phase a) rows) := by
  have htruthy := truthy_of_ne key.ne_empty
  have hfits := h.fits c r hr
  simp only [Fits, hstate] at hfits
  cases phase with
  | resolve =>
    apply h.look rfl
    all_goals
      cases s.world.db.resolve r.dto with
      | error e => simp [Fits]
      | ok target => simp [htruthy, Fits, Phase.target?]
  | findKey target =>
    apply h.look rfl
    all_goals
      rw [htruthy, Option.bind_some]
      cases hexisting : s.world.db.keys key.text with
      | none => simp [Fits, Phase.target?]
      | some existing =>
        obtain ⟨requestHash, responseRef⟩ := existing
        by_cases hhash : requestHash = hashRequest r.dto target
        · subst hhash
          simp [Fits, Phase.target?, hexisting]
        · simp [hhash, Fits]
  | findMessage target m =>
    obtain ⟨htarget, hkey⟩ := hfits
    apply h.look rfl
    all_goals
      cases s.world.db.messages m with
      | none => simp [Fits, Phase.target?]
      | some row => simp [Fits, Recorded, htarget, hkey, MessageRow.response]
  | checkAttachments target =>
    apply h.look rfl
    all_goals cases s.world.db.checkAttachments r.dto <;> simp [Fits, Phase.target?]
  | findConversation target => exact h.look rfl (by simp [Fits, Phase.target?]) (by simp)
  | transact target conversationId =>
    replace hfits : r.target = some target := hfits
    cases htransact : s.world.db.transact r.dto target (some key.text) conversationId a with
    | none =>
      have hnext : (Phase.transact target conversationId).next r.dto (some key.text) a s.world =
          (s.world, .inr .threw) := by
        simp only [Phase.next, htruthy, htransact]
      exact h.look hnext (by simp [Fits]) (by simp)
    | some sent =>
      have hcommitted := transact_committed htransact
      unfold Requests.answer
      simp only [Phase.next, htruthy, htransact]
      cases r.dto.scheduled with
      | true => exact h.commit hcommitted (.inr rfl) rfl (by simpa using hfits)
      | false => exact h.commit hcommitted (.inl rfl) rfl (by simpa [Phase.target?] using hfits)
  | enqueue response =>
    have hsame : made s (.advance c a) (s.answer key c r (.enqueue response) a) rows = rows := made_same _ rfl
    rw [hsame]
    exact h.enqueue hr hstate

private theorem atMostOne_step {s t : Requests} (h : AtMostOne key before s rows) (action : Action)
    (hs : s.step key action = some t) : AtMostOne key before t (made s action t rows) := by
  cases action with
  | post c dto =>
    obtain ⟨-, hs⟩ := Option.ite_none_right_eq_some.mp hs
    obtain rfl := Option.some.inj hs
    exact h.setCall rfl trivial (by rintro ⟨response, hstate⟩; simp at hstate)
  | fail c =>
    obtain ⟨r, hr, hs⟩ := Option.bind_eq_some_iff.mp hs
    obtain ⟨phase, hphase, rfl⟩ := Option.map_eq_some_iff.mp hs
    exact h.setCall rfl trivial (by rintro ⟨response, hstate⟩; simp at hstate)
  | write db =>
    obtain ⟨hkey, hs⟩ := Option.ite_none_right_eq_some.mp hs
    obtain rfl := Option.some.inj hs
    refine ⟨fun c r hr => (h.fits c r hr).mono hkey fun _ => ⟨rfl, rfl⟩, h.lone, ?_⟩
    simp only [hkey]
    exact h.rows
  | advance c a =>
    obtain ⟨r, hr, hs⟩ := Option.bind_eq_some_iff.mp hs
    obtain ⟨phase, hphase, rfl⟩ := Option.map_eq_some_iff.mp hs
    exact h.answer hr (Sum.getLeft?_eq_some_iff.mp hphase) a

/-- However the requests under one key interleave, they make at most one row of a message, and
one job for it; whoever is answered gets this message, or the one the key named before, under
the hash it was recorded with. -/
theorem one_message {s₀ s : Requests} {as : List Action} (hinit : (requests key).init s₀)
    (hrun : (counted key).replay (s₀, 0) as = some (s, rows)) :
    (rows = 0 ∧ s.world.enqueued = [] ∨ ∃ m, rows = Pi.single m 1 ∧ s.world.enqueued <+: [m]) ∧
      ∀ c r response, s.calls c = some r → r.state = .inr (.returned response) →
        ∃ row target, s.world.db.keys key.text = some row ∧ response.id = row.responseRef ∧
          (rows = Pi.single response.id 1 ∨ rows = 0 ∧ s₀.world.db.keys key.text = some row) ∧
          r.target = some target ∧ row.requestHash = hashRequest r.dto target := by
  obtain ⟨hempty, hcalls⟩ := hinit
  have hstart : AtMostOne key (s₀.world.db.keys key.text) s₀ 0 :=
    ⟨by simp [hcalls], by simp [hcalls], .inl ⟨rfl, hempty, rfl⟩⟩
  have hstep : ∀ p a q, AtMostOne key (s₀.world.db.keys key.text) p.1 p.2 → (counted key).step p a = some q →
      AtMostOne key (s₀.world.db.keys key.text) q.1 q.2 := by
    intro p a q hone hs
    obtain ⟨hs, hrows⟩ := System.observed_step hs
    rw [hrows]
    exact atMostOne_step hone a hs
  have hone : AtMostOne key (s₀.world.db.keys key.text) s rows := System.replay_invariant hstep hstart hrun
  refine ⟨hone.rows.imp (fun h => ⟨h.1, h.2.1⟩) fun ⟨row, _, hrows⟩ => ⟨row.responseRef, hrows⟩, ?_⟩
  intro c r response hr hstate
  have hfits := hone.fits c r hr
  simp only [Fits, hstate] at hfits
  obtain ⟨target, htarget, hkey⟩ := hfits
  refine ⟨_, target, hkey, rfl, ?_, htarget, rfl⟩
  rcases hone.rows with ⟨hnone, -, hbefore⟩ | ⟨row, hrow, hrows, -⟩
  · exact .inr ⟨hnone, hbefore.symm.trans hkey⟩
  · obtain rfl := Option.some.inj (hkey.symm.trans hrow)
    exact .inl hrows

end

namespace Sample

def key : RequestKey := ⟨"order-7", by decide⟩

def fresh : Requests := ⟨⟨database, []⟩, fun _ => none⟩

/-- Both requests look the key up before either has recorded it; a third one comes later. -/
def racing : List Action :=
  [.post 0 body, .post 1 body] ++ (List.replicate 4 [.advance 0 (answer 'm'), .advance 1 (answer 'n')]).flatten ++
    [.advance 0 (answer 'm'), .advance 1 (answer 'n'), .advance 0 (answer 'm'), .post 2 body] ++
    List.replicate 3 (.advance 2 (answer 'o'))

end Sample

open Sample in
/-- Of two requests in a race one is answered, the other throws; the third gets the same message. -/
theorem one_message_racing : ∃ s rows, (counted key).replay (fresh, 0) racing = some (s, rows) ∧
    rows = Pi.single (uuid 'm') 1 ∧ (s.world.db.messages (uuid 'm')).isSome ∧ s.world.enqueued = [uuid 'm'] ∧
    (s.calls 1).map (·.state) = some (.inr .threw) ∧
    ∃ r response, s.calls 2 = some r ∧ r.state = .inr (.returned response) ∧ response.id = uuid 'm' := by
  have hrun : ((requests key).replay fresh racing).map (fun s =>
      ((s.world.db.messages (uuid 'm')).isSome, s.world.enqueued, (s.calls 1).bind (·.state.getRight?),
        (s.calls 2).bind (·.state.getRight?))) =
        some (true, [uuid 'm'], some .threw, some (.returned ⟨uuid 'm', .queued, none, 5⟩)) := by
    decide +kernel
  obtain ⟨s, hs, hseen⟩ := Option.map_eq_some_iff.mp hrun
  obtain ⟨rows, hcounted⟩ := System.replay_observed made 0 hs
  simp only [Prod.mk.injEq] at hseen
  obtain ⟨hstored, henqueued, hthrew, hthird⟩ := hseen
  obtain ⟨r₁, hr₁, hright₁⟩ := Option.bind_eq_some_iff.mp hthrew
  obtain ⟨r, hr, hright⟩ := Option.bind_eq_some_iff.mp hthird
  have hstate := Sum.getRight?_eq_some_iff.mp hright
  obtain ⟨-, hreturned⟩ := one_message ⟨rfl, fun _ => rfl⟩ hcounted
  obtain ⟨row, target, -, -, hmade, -⟩ := hreturned 2 r _ hr hstate
  refine ⟨s, rows, hcounted, hmade.resolve_right ?_, hstored, henqueued, ?_, r, _, hr, hstate, rfl⟩
  · rintro ⟨-, hbefore⟩
    cases hbefore
  · rw [hr₁, Option.map_some, Sum.getRight?_eq_some_iff.mp hright₁]

end MessagingGateway.Sending
