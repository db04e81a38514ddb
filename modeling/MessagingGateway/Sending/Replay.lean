import MessagingGateway.Sending.Send

/-! A repeated request: what the recorded key makes of it after any further writes. -/
namespace MessagingGateway.Sending

/-- A later write: to the accounts, the endpoints or the files, to a message that is processed
or deleted, or by another request. -/
inductive Change where
  | accounts (rows : List TransportAccount)
  | endpoints (rows : List Endpoint)
  | attachments (rows : List Attachment)
  | status (m : Uuid) (status : MessageStatus)
  | delete (m : Uuid)
  | send (dto : SendMessageDto) (idempotencyKey : Option String) (a : Answer)

namespace Database
variable (db : Database)

def apply : Change → Database
  | .accounts rows => { db with accounts := rows }
  | .endpoints rows => { db with endpoints := rows }
  | .attachments rows => { db with attachments := rows }
  | .status m status => { db with
      messages := Function.update db.messages m ((db.messages m).map fun row => { row with status := status }) }
  | .delete m => { db with messages := Function.update db.messages m none }
  | .send dto idempotencyKey a => (Sending.send db dto idempotencyKey a).db

def applyAll (changes : List Change) : Database := changes.foldl apply db

/-- The body resolves to what it resolved to before: the endpoint it names is still enabled on
its account, or the channel still has the same default. -/
def ResolvesAs (before : Database) (dto : SendMessageDto) : Prop :=
  match dto.accountId, dto.endpointId with
  | some accountId, some endpointId =>
    ∃ endpoint ∈ db.endpoints, endpoint.id = endpointId ∧ endpoint.accountId = accountId ∧ endpoint.enabled
  | _, _ => db.defaultTarget dto.channel = before.defaultTarget dto.channel

end Database

section
variable {db later : Database} {dto : SendMessageDto} {key : String} {row : IdempotencyKey} {target : Target}
  {response : SendMessageResponse} {m : Uuid} {found : MessageRow} {a a' : Answer}

private theorem send_key_kept (dto : SendMessageDto) (k : Option String) (a : Answer) (h : db.keys key = some row) :
    (send db dto k a).db.keys key = some row := by
  have hcase := send_cases db dto k a
  generalize send db dto k a = sent at hcase
  cases hcase with
  | created target db' response _ _ _ htransact =>
    have hcommitted := transact_committed htransact
    by_cases hmem : key ∈ truthy k
    · exact absurd (hcommitted.free key hmem) (by simp [h])
    · exact (hcommitted.unkeyed key hmem).trans h
  | _ => exact h

/-- No write takes a recorded key away. -/
theorem apply_key_kept (change : Change) (h : db.keys key = some row) : (db.apply change).keys key = some row := by
  cases change with
  | send dto k a => exact send_key_kept dto k a h
  | _ => exact h

private theorem applyAll_key_kept (changes : List Change) (h : db.keys key = some row) :
    (db.applyAll changes).keys key = some row := by
  induction changes generalizing db with
  | nil => exact h
  | cons change changes ih => exact ih (apply_key_kept change h)

/-- A request that succeeded has left its key, with the hash of the body it resolved to. -/
theorem returned_recorded (hkey : key ≠ "") (h : (send db dto (some key) a).outcome = .returned response) :
    ∃ target, db.resolve dto = .ok target ∧
      (send db dto (some key) a).db.keys key = some ⟨hashRequest dto target, response.id⟩ := by
  have htruthy := truthy_of_ne hkey
  generalize hsent : send db dto (some key) a = sent at h ⊢
  have hcase := send_cases db dto (some key) a
  rw [hsent] at hcase
  cases hcase with
  | unresolved => exact absurd h (by simp)
  | stopped outcome hno => exact absurd h (hno response)
  | recorded target outcome hresolve hrecorded =>
    rw [htruthy, Option.bind_some, Database.recorded] at hrecorded
    obtain ⟨existing, hexisting, hrecorded⟩ := Option.bind_eq_some_iff.mp hrecorded
    dsimp only at h ⊢
    subst h
    by_cases hhash : existing.requestHash = hashRequest dto target
    · rw [if_neg (not_not.mpr hhash)] at hrecorded
      obtain ⟨found, -, hfound⟩ := Option.map_eq_some_iff.mp hrecorded
      obtain rfl := Outcome.returned.inj hfound
      refine ⟨target, hresolve, hexisting.trans ?_⟩
      rw [← hhash]
      rfl
    · rw [if_pos hhash] at hrecorded
      exact absurd hrecorded (by simp)
  | created target db' sent hresolve _ _ htransact =>
    have hcommitted := transact_committed htransact
    obtain rfl := Outcome.returned.inj h
    refine ⟨target, hresolve, ?_⟩
    rw [hcommitted.response_id]
    exact hcommitted.keyed key htruthy

private theorem resolvesAs_iff (h : db.resolve dto = .ok target) :
    later.ResolvesAs db dto ↔ later.resolve dto = .ok target := by
  have hdefault : dto.accountId = none ∨ dto.endpointId = none →
      (later.ResolvesAs db dto ↔ later.resolve dto = .ok target) := by
    intro hnone
    have hresolve : ∀ db' : Database, db'.resolve dto = .ok target ↔ db'.defaultTarget dto.channel = some target := by
      intro db'
      unfold Database.resolve
      split
      · simp_all
      · cases db'.defaultTarget dto.channel <;> simp
    unfold Database.ResolvesAs
    split
    · simp_all
    · rw [hresolve, (hresolve db).mp h]
  cases haccount : dto.accountId with
  | none => exact hdefault (.inl haccount)
  | some accountId =>
    cases hendpoint : dto.endpointId with
    | none => exact hdefault (.inr hendpoint)
    | some endpointId =>
      have hnamed : ∀ db' : Database, db'.resolve dto = .ok target ↔ target = ⟨accountId, endpointId⟩ ∧
          ∃ endpoint ∈ db'.endpoints, endpoint.id = endpointId ∧ endpoint.accountId = accountId ∧ endpoint.enabled := by
        intro db'
        simp only [Database.resolve, haccount, hendpoint]
        split
        · rename_i hany
          obtain ⟨endpoint, hmem, hrow⟩ := List.any_eq_true.mp hany
          constructor
          · intro hok
            exact ⟨(Except.ok.inj hok).symm, endpoint, hmem, of_decide_eq_true hrow⟩
          · rintro ⟨rfl, -⟩
            rfl
        · rename_i hany
          apply iff_of_false (by simp)
          rintro ⟨-, endpoint, hmem, hrow⟩
          exact hany (List.any_eq_true.mpr ⟨endpoint, hmem, decide_eq_true hrow⟩)
      rw [(hnamed later), and_iff_right ((hnamed db).mp h).1]
      simp only [Database.ResolvesAs, haccount, hendpoint]

/-- What a recorded request gets when it is made once more, while its message exists. -/
theorem resend_outcome (hkey : key ≠ "") (hrecorded : later.keys key = some ⟨hashRequest dto target, m⟩)
    (hmessage : later.messages m = some found) : (send later dto (some key) a').outcome =
      match later.resolve dto with
      | .error e => .refused e
      | .ok target' => if target' = target then .returned (found.response m) else .refused .idempotencyConflict := by
  unfold send
  cases later.resolve dto with
  | error e => rfl
  | ok target' =>
    dsimp only
    rw [truthy_of_ne hkey, Option.bind_some, Database.recorded, hrecorded, Option.bind_some]
    dsimp only
    by_cases htarget : target' = target
    · subst htarget
      rw [if_neg (not_not.mpr rfl), if_pos rfl, hmessage]
      rfl
    · rw [if_pos (fun hsame => htarget (hashRequest_inj.mp hsame).symm), if_neg htarget]

/-- A repeat under an unused key makes a message of its own. -/
theorem resend_unkeyed (hmessage : (later.messages m).isSome) {again : SendMessageResponse}
    (h : (send later dto (some "") a').outcome = .returned again) : again.id ≠ m := by
  have hcase := send_cases later dto (some "") a'
  generalize send later dto (some "") a' = sent at h hcase
  cases hcase with
  | unresolved => exact absurd h (by simp)
  | stopped outcome hno => exact absurd h (hno again)
  | recorded target outcome hresolve hrecorded => exact absurd hrecorded (by simp [truthy])
  | created target db' response _ _ _ htransact =>
    have hcommitted := transact_committed htransact
    obtain rfl := Outcome.returned.inj h
    rintro rfl
    rw [hcommitted.response_id, hcommitted.fresh] at hmessage
    exact absurd hmessage (by simp)

/-- While the message exists, the same request with the same key is answered with it exactly
if the key is not empty and the body still resolves to the same account and endpoint. -/
theorem replay_iff (h : (send db dto (some key) a).outcome = .returned response) (changes : List Change) (a' : Answer)
    (hexists : (((send db dto (some key) a).db.applyAll changes).messages response.id).isSome) :
    (∃ again, (send ((send db dto (some key) a).db.applyAll changes) dto (some key) a').outcome = .returned again ∧
        again.id = response.id) ↔
      key ≠ "" ∧ ((send db dto (some key) a).db.applyAll changes).ResolvesAs db dto := by
  by_cases hkey : key = ""
  · subst hkey
    refine iff_of_false ?_ (by simp)
    rintro ⟨again, hagain, hsame⟩
    exact resend_unkeyed hexists hagain hsame
  obtain ⟨target, hresolve, hrecorded⟩ := returned_recorded hkey h
  obtain ⟨found, hfound⟩ := Option.isSome_iff_exists.mp hexists
  rw [resend_outcome hkey (applyAll_key_kept changes hrecorded) hfound, resolvesAs_iff hresolve]
  generalize (send db dto (some key) a).db.applyAll changes = later
  cases later.resolve dto with
  | error e => simp
  | ok target' =>
    by_cases htarget : target' = target
    · subst htarget
      simp [hkey, MessageRow.response]
    · simp [htarget]

end

namespace Sample

def first : SendMessageResponse := ⟨uuid 'm', .queued, none, 5⟩

def added : List Change := [.accounts [account 'a' 1, account 'b' 2], .endpoints [endpoint 'a' 1, endpoint 'b' 2]]

def disabled : List Change := [.accounts [account 'a' 1, account 'b' 2], .status (uuid 'm') .sent]

end Sample

open Sample in
/-- A second account of the channel turns the repeat into a conflict. -/
theorem replay_conflicts : ¬ ∀ (db : Database) (dto : SendMessageDto) (key : String) (a : Answer)
    (response : SendMessageResponse), (send db dto (some key) a).outcome = .returned response →
    ∀ (changes : List Change) (a' : Answer),
      (((send db dto (some key) a).db.applyAll changes).messages response.id).isSome →
      ∃ again, (send ((send db dto (some key) a).db.applyAll changes) dto (some key) a').outcome = .returned again ∧
        again.id = response.id := by
  intro h
  have hfirst : (send database body (some "order-7") (answer 'm')).outcome = .returned first := by decide
  have hstored : (((send database body (some "order-7") (answer 'm')).db.applyAll added).messages first.id).isSome := by
    decide
  obtain ⟨again, hagain, -⟩ := h _ _ _ _ _ hfirst added (answer 'n') hstored
  obtain ⟨target, hresolve, hrecorded⟩ := returned_recorded (by decide) hfirst
  obtain ⟨found, hfound⟩ := Option.isSome_iff_exists.mp hstored
  have hold : database.resolve body = .ok ⟨uuid 'a', uuid 'a'⟩ := by decide
  have hnew : ((send database body (some "order-7") (answer 'm')).db.applyAll added).resolve body =
      .ok ⟨uuid 'b', uuid 'b'⟩ := by
    decide
  obtain rfl := Except.ok.inj (hresolve.symm.trans hold)
  rw [resend_outcome (by decide) (applyAll_key_kept added hrecorded) hfound, hnew] at hagain
  dsimp only at hagain
  rw [if_neg (by decide)] at hagain
  exact absurd hagain (by simp)

open Sample in
/-- Another account of the channel without an endpoint changes nothing for the repeat. -/
theorem replay_returns : ∃ again, (send ((send database body (some "order-7") (answer 'm')).db.applyAll disabled) body
    (some "order-7") (answer 'n')).outcome = .returned again ∧ again.id = first.id :=
  (replay_iff (a := answer 'm') (by decide) disabled (answer 'n') (by decide)).mpr
    ⟨by decide, show Database.defaultTarget _ _ = Database.defaultTarget _ _ by decide⟩

end MessagingGateway.Sending
