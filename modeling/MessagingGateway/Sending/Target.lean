import MessagingGateway.Sending.Send

/-! Where an accepted request goes: the account and the endpoint of the message it makes. -/
namespace MessagingGateway.Sending

/-- The account may carry messages of the channel. -/
def Database.Carries (db : Database) (accountId : Uuid) (channel : ChannelType) : Prop :=
  ∃ account ∈ db.accounts, account.id = accountId ∧ account.status = .active ∧ account.type = channel

/-- An enabled endpoint of the account. -/
def Database.Offers (db : Database) (accountId endpointId : Uuid) : Prop :=
  ∃ endpoint ∈ db.endpoints, endpoint.id = endpointId ∧ endpoint.accountId = accountId ∧ endpoint.enabled

structure Consistent (db : Database) (dto : SendMessageDto) (row : MessageRow) : Prop where
  offered : db.Offers row.accountId row.endpointId
  carried : db.Carries row.accountId dto.channel
  account : ∀ accountId ∈ dto.accountId, row.accountId = accountId
  endpoint : ∀ endpointId ∈ dto.endpointId, row.endpointId = endpointId

/-- What the two paths leave unchecked: the account named together with an endpoint may carry
the channel or not, and an id named alone may be the default's or not. -/
def Database.Agrees (db : Database) (dto : SendMessageDto) : Prop :=
  match dto.accountId, dto.endpointId with
  | some accountId, some _ => db.Carries accountId dto.channel
  | some accountId, none => ∀ target ∈ db.defaultTarget dto.channel, target.accountId = accountId
  | none, some endpointId => ∀ target ∈ db.defaultTarget dto.channel, target.endpointId = endpointId
  | none, none => True

section
variable {db : Database} {dto : SendMessageDto} {key : Option String} {a : Answer} {target : Target} {m : Uuid}
  {row : MessageRow}

/-- The default comes from an active account of the channel and an enabled endpoint of it. -/
theorem defaultTarget_sound {channel : ChannelType} (h : db.defaultTarget channel = some target) :
    db.Offers target.accountId target.endpointId ∧ db.Carries target.accountId channel := by
  simp only [Database.defaultTarget, Option.bind_eq_bind, Option.bind_eq_some_iff, Option.pure_def,
    Option.some.injEq] at h
  obtain ⟨account, haccount, endpoint, hendpoint, rfl⟩ := h
  obtain ⟨hmem, hcandidate⟩ := List.mem_filter.mp (List.argmax_mem haccount)
  obtain ⟨hendpoint, henabled⟩ := List.mem_filter.mp (List.argmin_mem hendpoint)
  obtain ⟨htype, hactive, -⟩ := of_decide_eq_true hcandidate
  obtain ⟨howner, henabled⟩ := of_decide_eq_true henabled
  exact ⟨⟨endpoint, hendpoint, rfl, howner, henabled⟩, account, hmem, rfl, hactive, htype⟩

/-- A row that was not there before is the one of an accepted request. -/
theorem created_row (hfresh : db.messages m = none) (hrow : (send db dto key a).db.messages m = some row) :
    ∃ target, db.resolve dto = .ok target ∧ row.accountId = target.accountId ∧ row.endpointId = target.endpointId := by
  have hcase := send_cases db dto key a
  generalize send db dto key a = sent at hrow hcase
  cases hcase with
  | created target db' response hresolve _ _ htransact =>
    have hcommitted := transact_committed htransact
    rw [hcommitted.messages] at hrow
    rcases eq_or_ne m a.id with rfl | hne
    · rw [Function.update_self] at hrow
      obtain rfl := Option.some.inj hrow
      exact ⟨target, hresolve, rfl, rfl⟩
    · rw [Function.update_of_ne hne, hfresh] at hrow
      exact absurd hrow (by simp)
  | _ => exact absurd (hfresh.symm.trans hrow) (by simp)

/-- A body that does not name both goes to the default. -/
theorem resolve_default (hnone : dto.accountId = none ∨ dto.endpointId = none) (h : db.resolve dto = .ok target) :
    db.defaultTarget dto.channel = some target := by
  unfold Database.resolve at h
  split at h
  · simp_all
  · cases hdefault : db.defaultTarget dto.channel with
    | none => simp [hdefault] at h
    | some found =>
      rw [hdefault] at h
      exact congrArg some (Except.ok.inj h)

private theorem resolve_named {accountId endpointId : Uuid} (haccount : dto.accountId = some accountId)
    (hendpoint : dto.endpointId = some endpointId) (h : db.resolve dto = .ok target) :
    target = ⟨accountId, endpointId⟩ ∧ db.Offers accountId endpointId := by
  simp only [Database.resolve, haccount, hendpoint] at h
  split at h
  · rename_i hany
    obtain ⟨endpoint, hmem, hrow⟩ := List.any_eq_true.mp hany
    exact ⟨(Except.ok.inj h).symm, endpoint, hmem, of_decide_eq_true hrow⟩
  · exact absurd h (by simp)

/-- Where the request goes, the endpoint is always one of the account. -/
theorem resolve_agrees (h : db.resolve dto = .ok target) : db.Offers target.accountId target.endpointId ∧
    (db.Agrees dto ↔ db.Carries target.accountId dto.channel ∧
      (∀ accountId ∈ dto.accountId, target.accountId = accountId) ∧
      ∀ endpointId ∈ dto.endpointId, target.endpointId = endpointId) := by
  unfold Database.Agrees
  cases haccount : dto.accountId with
  | some accountId =>
    cases hendpoint : dto.endpointId with
    | some endpointId =>
      obtain ⟨rfl, hoffers⟩ := resolve_named haccount hendpoint h
      exact ⟨hoffers, by simp⟩
    | none =>
      have hdefault := resolve_default (.inr hendpoint) h
      obtain ⟨hoffers, hcarries⟩ := defaultTarget_sound hdefault
      exact ⟨hoffers, by simp [hdefault, hcarries]⟩
  | none =>
    obtain hdefault := resolve_default (.inl haccount) h
    obtain ⟨hoffers, hcarries⟩ := defaultTarget_sound hdefault
    cases dto.endpointId with
    | some endpointId => exact ⟨hoffers, by simp [hdefault, hcarries]⟩
    | none => exact ⟨hoffers, by simp [hcarries]⟩

/-- The message of an accepted request is consistent exactly if the ids it names agree with
its channel. -/
theorem consistent_iff (hfresh : db.messages m = none) (hrow : (send db dto key a).db.messages m = some row) :
    Consistent db dto row ↔ db.Agrees dto := by
  obtain ⟨target, hresolve, haccount, hendpoint⟩ := created_row hfresh hrow
  obtain ⟨hoffers, hagrees⟩ := resolve_agrees hresolve
  rw [hagrees, ← haccount, ← hendpoint]
  rw [← haccount, ← hendpoint] at hoffers
  constructor
  · rintro ⟨-, hcarries, hnamed, hnamed'⟩
    exact ⟨hcarries, hnamed, hnamed'⟩
  · rintro ⟨hcarries, hnamed, hnamed'⟩
    exact ⟨hoffers, hcarries, hnamed, hnamed'⟩


end

namespace Sample

/-- An SMS account next to the Signal one. -/
def mixed : Database := { database with
  accounts := [account 'a' 1, { account 'b' 2 with type := .sms, status := .disabled }]
  endpoints := [endpoint 'a' 1, endpoint 'b' 2] }

def named (c : Char) : SendMessageDto := { body with accountId := some (uuid c), endpointId := some (uuid c) }

end Sample

open Sample in
/-- A Signal message leaves through the disabled SMS account it names. -/
theorem target_mixed_up : ¬ ∀ (db : Database) (dto : SendMessageDto) (key : Option String) (a : Answer) (m : Uuid)
    (row : MessageRow), db.messages m = none → (send db dto key a).db.messages m = some row →
      Consistent db dto row := by
  intro h
  have hsent : ((send mixed (named 'b') none (answer 'm')).db.messages (uuid 'm')).map (·.accountId) =
    some (uuid 'b') := by
    decide
  obtain ⟨row, hrow, haccount⟩ := Option.map_eq_some_iff.mp hsent
  obtain ⟨account, hmem, hid, hactive, -⟩ := (h _ _ _ _ _ row rfl hrow).carried
  rw [haccount] at hid
  simp only [mixed, List.mem_cons, List.not_mem_nil, or_false] at hmem
  rcases hmem with rfl | rfl
  · exact absurd hid (by decide)
  · exact absurd hactive (by decide)

open Sample in
theorem target_agrees : ∃ row, (send mixed (named 'a') none (answer 'm')).db.messages (uuid 'm') = some row ∧
    Consistent mixed (named 'a') row := by
  have hsent : ((send mixed (named 'a') none (answer 'm')).db.messages (uuid 'm')).isSome := by decide
  obtain ⟨row, hrow⟩ := Option.isSome_iff_exists.mp hsent
  refine ⟨row, hrow, (consistent_iff rfl hrow).mpr ?_⟩
  exact ⟨account 'a' 1, by simp [mixed], rfl, rfl, rfl⟩

end MessagingGateway.Sending
