import MessagingGateway.Provisioning.Ownership

/-! How long a link lasts. Only `unlink` is meant to end it, but `startQr` and `poll` write
`qr_displayed` and `failed` without looking at the row they write to, and `reattach`, unlike
`poll`, links without clearing the session of an earlier wizard. -/
namespace MessagingGateway.Provisioning
open Transition

/-- The registration state of the endpoint is `linked`. -/
def Endpoints.Linked (rows : Endpoints) (id : Uuid) : Prop :=
  ∃ row ∈ rows.find id, row.registrationState = .linked

instance (rows : Endpoints) (id : Uuid) : Decidable (rows.Linked id) := by
  unfold Endpoints.Linked
  infer_instance

/-- The step is the one by which an unlink of the endpoint succeeds. -/
def UnlinkSucceeds (id : Uuid) (s : State) : Action → Prop
  | .advance c _ => match s.calls c with
    | some (.unlinkUpdate endpoint) => endpoint.id = id ∧ (s.endpoints.update id .unpaired).isSome
    | _ => False
  | _ => False

instance (id : Uuid) (s : State) : (a : Action) → Decidable (UnlinkSucceeds id s a)
  | .advance c _ => by
    unfold UnlinkSucceeds
    dsimp only
    generalize s.calls c = call
    rcases call with _ | phase
    · infer_instance
    · rcases phase <;> infer_instance
  | .call .. | .fail _ | .die _ => .isFalse not_false

/-- The step belongs to a `poll`. -/
def Polls (s : State) : Action → Prop
  | .advance c _ => match s.calls c with
    | some (.pollEndpoint ..) | some (.pollAdapter _) | some (.pollAccounts _) | some (.pollTaken ..)
    | some (.pollLink ..) | some (.pollExpire _) => True
    | _ => False
  | _ => False

/-- A poll leaves a linked endpoint its external id. -/
def KeepsExternalId (id : Uuid) (s : State) (a : Action) (t : State) : Prop :=
  s.endpoints.Linked id → Polls s a →
    (t.endpoints.find id).map (·.externalId) = (s.endpoints.find id).map (·.externalId)

/-- A linked endpoint is not the one that a wizard, or a poll whose QR is over, writes to, and
what a poll links it to has its external id. A write that the table rejects does not count. -/
def Spares (id : Uuid) (s : State) : Action → Prop
  | .advance c supply => match s.calls c with
    | some (.qrDisplay endpointId dto knownBefore result) => endpointId = id →
        (s.endpoints.update id (.displayed dto knownBefore result supply.now)).isSome → ¬ s.endpoints.Linked id
    | some (.qrMarkFailed endpointId) => endpointId = id →
        (s.endpoints.update id .markedFailed).isSome → ¬ s.endpoints.Linked id
    | some (.pollExpire endpoint) => endpoint.id = id →
        (s.endpoints.update id .markedFailed).isSome → ¬ s.endpoints.Linked id
    | some (.pollLink endpoint found) => endpoint.id = id →
        (s.endpoints.update id (.polled endpoint found supply.now)).isSome →
        ∀ row ∈ s.endpoints.find id, row.registrationState = .linked →
          (found.externalId <|> endpoint.externalId) = row.externalId
    | _ => True
  | _ => True

instance (id : Uuid) (s : State) : (a : Action) → Decidable (Spares id s a)
  | .advance c _ => by
    unfold Spares
    dsimp only
    generalize s.calls c = call
    rcases call with _ | phase
    · infer_instance
    · rcases phase <;> infer_instance
  | .call .. | .fail _ | .die _ => .isTrue trivial

namespace Endpoints

private theorem find_update {rows rows' : Endpoints} {id : Uuid} {f : EndpointRow → EndpointRow}
    (h : rows.update id f = some rows') (hkeeps : EndpointRow.Keeps f) (other : Uuid) :
    rows'.find other = (rows.find other).map fun row => if row.id = id then f row else row := by
  rw [(update_eq h).2, find, find, List.find?_map]
  congr 2
  funext row
  by_cases hid : row.id = id
  · simp [hid, (hkeeps row).1]
  · simp [hid]

private theorem find_update_self {rows rows' : Endpoints} {id : Uuid} {f : EndpointRow → EndpointRow}
    (h : rows.update id f = some rows') (hkeeps : EndpointRow.Keeps f) :
    rows'.find id = (rows.find id).map f := by
  rw [find_update h hkeeps]
  apply Option.map_congr
  intro row hrow
  have hid : row.id = id := by simpa using List.find?_some hrow
  rw [if_pos hid]

private theorem find_update_ne {rows rows' : Endpoints} {id other : Uuid} {f : EndpointRow → EndpointRow}
    (h : rows.update id f = some rows') (hkeeps : EndpointRow.Keeps f) (hne : id ≠ other) :
    rows'.find other = rows.find other := by
  rw [find_update h hkeeps]
  cases hfind : rows.find other with
  | none => rfl
  | some row =>
    have hid : row.id = other := by simpa using List.find?_some hfind
    rw [Option.map_some, if_neg (hid ▸ hne.symm)]

private theorem find_create {rows rows' : Endpoints} {row : EndpointRow} (h : rows.create row = some rows') {id : Uuid}
    (hsome : (rows.find id).isSome) : rows'.find id = rows.find id := by
  unfold create at h
  split at h
  · exact absurd h (by simp)
  · obtain rfl := Option.some.inj h
    obtain ⟨e, he⟩ := Option.isSome_iff_exists.mp hsome
    rw [he]
    exact List.find?_append.trans (by rw [show List.find? _ rows = some e from he, Option.some_or])

private theorem linked_congr {rows rows' : Endpoints} {id : Uuid} (h : rows'.find id = rows.find id) :
    rows'.Linked id ↔ rows.Linked id := by
  rw [Linked, Linked, h]

end Endpoints

private theorem Phase.write_keeps {phase : Phase} {now : Nat} {id : Uuid} {f : EndpointRow → EndpointRow}
    (h : phase.write now = some (id, f)) : EndpointRow.Keeps f := by
  cases phase with
  | qrDisplay | qrMarkFailed | pollLink | pollExpire | unlinkUpdate | reattachLink =>
    obtain ⟨-, rfl⟩ := Prod.mk.inj (Option.some.inj h)
    exact fun row => ⟨rfl, rfl⟩
  | _ => exact absurd h (by simp [write])

/-- A step either leaves the row of a linked endpoint alone, or writes to it. -/
theorem step_row {s t : State} {a : Action} (h : step s a = some t) {id : Uuid} (hlinked : s.endpoints.Linked id) :
    t.endpoints.find id = s.endpoints.find id ∨ ∃ c supply phase f, a = .advance c supply ∧ s.calls c = some phase ∧
      phase.write supply.now = some (id, f) ∧ s.endpoints.update id f = some t.endpoints := by
  cases a with
  | call c request =>
    simp only [step] at h
    split at h
    · obtain rfl := Option.some.inj h
      exact .inl rfl
    · exact absurd h (by simp)
  | fail c | die c =>
    obtain ⟨_, _, rfl⟩ := Option.map_eq_some_iff.mp h
    exact .inl rfl
  | advance c supply =>
    obtain ⟨phase, hc, h⟩ := Option.bind_eq_some_iff.mp h
    obtain ⟨⟨rows, phase'⟩, hadvance, rfl⟩ := Option.map_eq_some_iff.mp h
    rcases advance_endpoints hadvance with ⟨id', f, hwrite, hrows⟩ | ⟨-, rfl | ⟨accountId, dto, name, hrows⟩⟩
    · cases hup : s.endpoints.update id' f with
      | none =>
        rw [hup] at hrows
        exact .inl (by rw [hrows, Option.getD_none])
      | some rows' =>
        obtain rfl : rows = rows' := by rw [hrows, hup, Option.getD_some]
        by_cases hid : id' = id
        · subst hid
          exact .inr ⟨c, supply, phase, f, rfl, hc, hwrite, hup⟩
        · exact .inl (Endpoints.find_update_ne hup (Phase.write_keeps hwrite) hid)
    · exact .inl rfl
    · cases hcreate : s.endpoints.create (.pending supply.rowId accountId dto name) with
      | none =>
        rw [hcreate] at hrows
        exact .inl (by rw [hrows, Option.getD_none])
      | some rows' =>
        obtain rfl : rows = rows' := by rw [hrows, hcreate, Option.getD_some]
        obtain ⟨row, hrow, -⟩ := hlinked
        exact .inl (Endpoints.find_create hcreate (Option.isSome_of_mem hrow))

section
variable {s t : State} {c : Nat} {supply : Supply} {phase : Phase} {id : Uuid} {f : EndpointRow → EndpointRow}

private theorem linked_written (hup : s.endpoints.update id f = some t.endpoints) (hkeeps : EndpointRow.Keeps f)
    (hstate : ∀ row, (f row).registrationState = .linked) (hlinked : s.endpoints.Linked id) :
    t.endpoints.Linked id := by
  obtain ⟨row, hrow, -⟩ := hlinked
  exact ⟨f row, by rw [Endpoints.find_update_self hup hkeeps, hrow]; rfl, hstate row⟩

private theorem unlinked_written (hup : s.endpoints.update id f = some t.endpoints) (hkeeps : EndpointRow.Keeps f)
    (hunlinks : EndpointRow.Unlinks f) : ¬ t.endpoints.Linked id := by
  rintro ⟨row, hrow, hstate⟩
  rw [Endpoints.find_update_self hup hkeeps] at hrow
  obtain ⟨row, -, rfl⟩ := Option.map_eq_some_iff.mp hrow
  exact hunlinks row hstate

/-- What a linked endpoint is promised of one step. -/
private def Promised (id : Uuid) (s : State) (a : Action) (t : State) : Prop :=
  (s.endpoints.Linked id → ¬ UnlinkSucceeds id s a → t.endpoints.Linked id) ∧ KeepsExternalId id s a t

private theorem promised_of_spares {a : Action} (hspares : Spares id s a) (h : step s a = some t) :
    Promised id s a t := by
  by_cases hlinked : s.endpoints.Linked id
  · rcases step_row h hlinked with hsame | ⟨c, supply, phase, f, rfl, hc, hwrite, hup⟩
    · exact ⟨fun _ _ => (Endpoints.linked_congr hsame).mpr hlinked, fun _ _ => by rw [hsame]⟩
    · have hkeeps := Phase.write_keeps hwrite
      have haccepted : (s.endpoints.update id f).isSome := by rw [hup]; rfl
      cases phase with
      | qrDisplay | qrMarkFailed | pollExpire =>
        obtain ⟨rfl, rfl⟩ := Prod.mk.inj (Option.some.inj hwrite)
        simp only [Spares, hc] at hspares
        exact absurd hlinked (hspares trivial haccepted)
      | pollLink endpoint found =>
        obtain ⟨rfl, rfl⟩ := Prod.mk.inj (Option.some.inj hwrite)
        simp only [Spares, hc] at hspares
        refine ⟨fun _ _ => linked_written hup hkeeps (fun _ => rfl) hlinked, fun _ _ => ?_⟩
        obtain ⟨row, hrow, hstate⟩ := hlinked
        rw [Endpoints.find_update_self hup hkeeps, hrow]
        exact congrArg some (hspares trivial haccepted row hrow hstate)
      | unlinkUpdate endpoint =>
        obtain ⟨rfl, rfl⟩ := Prod.mk.inj (Option.some.inj hwrite)
        refine ⟨fun _ hends => absurd ?_ hends, fun _ hpolls => ?_⟩
        · simp only [UnlinkSucceeds, hc]
          exact ⟨trivial, haccepted⟩
        · simp [Polls, hc] at hpolls
      | reattachLink endpoint found =>
        obtain ⟨rfl, rfl⟩ := Prod.mk.inj (Option.some.inj hwrite)
        refine ⟨fun _ _ => linked_written hup hkeeps (fun _ => rfl) hlinked, fun _ hpolls => ?_⟩
        simp [Polls, hc] at hpolls
      | _ => exact absurd hwrite (by simp [Phase.write])
  · exact ⟨fun h => absurd h hlinked, fun h => absurd h hlinked⟩

/-- The writes of a call in flight are made as planned. -/
private theorem step_writes (h : step s (.advance c supply) = some t) (hc : s.calls c = some phase)
    (hwrite : phase.write supply.now = some (id, f)) (haccepted : (s.endpoints.update id f).isSome) :
    s.endpoints.update id f = some t.endpoints := by
  obtain ⟨phase', hc', h⟩ := Option.bind_eq_some_iff.mp h
  obtain rfl := Option.some.inj (hc.symm.trans hc')
  obtain ⟨⟨rows, next⟩, hadvance, rfl⟩ := Option.map_eq_some_iff.mp h
  obtain ⟨rows', hup⟩ := Option.isSome_iff_exists.mp haccepted
  rcases advance_endpoints hadvance with ⟨id', f', hwrite', hrows⟩ | ⟨hnone, -⟩
  · obtain ⟨rfl, rfl⟩ := Prod.mk.inj (Option.some.inj (hwrite.symm.trans hwrite'))
    rw [hup, Option.getD_some] at hrows
    rw [hup, hrows]
  · exact absurd (hwrite.symm.trans hnone) (by simp)

private theorem broken_of_unlinking (h : step s (.advance c supply) = some t) (hc : s.calls c = some phase)
    (hwrite : phase.write supply.now = some (id, f)) (haccepted : (s.endpoints.update id f).isSome)
    (hunlinks : EndpointRow.Unlinks f) (hlinked : s.endpoints.Linked id)
    (hends : ¬ UnlinkSucceeds id s (.advance c supply)) : ¬ Promised id s (.advance c supply) t := fun hpromised =>
  unlinked_written (step_writes h hc hwrite haccepted) (Phase.write_keeps hwrite) hunlinks (hpromised.1 hlinked hends)

private theorem spares_of_promised {a : Action} (h : step s a = some t) (hpromised : Promised id s a t) :
    Spares id s a := by
  cases a with
  | advance c supply =>
    simp only [Spares]
    split
    · rename_i endpointId dto knownBefore result hc
      rintro rfl haccepted hlinked
      exact broken_of_unlinking h hc rfl haccepted (fun row => by simp [EndpointRow.displayed]) hlinked
        (by simp [UnlinkSucceeds, hc]) hpromised
    · rename_i endpointId hc
      rintro rfl haccepted hlinked
      exact broken_of_unlinking h hc rfl haccepted (fun row => by simp [EndpointRow.markedFailed]) hlinked
        (by simp [UnlinkSucceeds, hc]) hpromised
    · rename_i endpoint hc
      rintro rfl haccepted hlinked
      exact broken_of_unlinking h hc rfl haccepted (fun row => by simp [EndpointRow.markedFailed]) hlinked
        (by simp [UnlinkSucceeds, hc]) hpromised
    · rename_i endpoint found hc
      rintro rfl haccepted row hrow hstate
      have hup := step_writes h hc rfl haccepted
      have hkept := hpromised.2 ⟨row, hrow, hstate⟩ (by simp [Polls, hc])
      rw [Endpoints.find_update_self hup (fun row => ⟨rfl, rfl⟩), hrow] at hkept
      exact Option.some.inj hkept
    · trivial
  | _ => trivial

end

/-- Along a schedule every link lasts until an unlink of its endpoint succeeds, with the external
id that no poll changes, exactly as long as startQr and poll spare the endpoint while it is linked. -/
theorem link_lasts_iff (id : Uuid) (s : State) (as : List Action) :
    ((system fun _ => True).Lasts (fun t => t.endpoints.Linked id) (UnlinkSucceeds id) s as ∧
      (system fun _ => True).Moves (KeepsExternalId id) s as) ↔
    (system fun _ => True).Obeys (Spares id) s as := by
  rw [System.lasts_iff_moves, ← System.moves_and]
  apply System.moves_iff_obeys (I := fun _ => True)
  · intro s a t _ hspares hs
    exact ⟨trivial, promised_of_spares hspares hs⟩
  · intro s a t _ hdisturbed hs hpromised
    exact hdisturbed (spares_of_promised hs hpromised)
  · trivial

namespace Sample

def qr : Supply :=
  { supply with
    result := ⟨"session", "sgnl://linkdevice", none, 60⟩
    rowId := ⟨"6b0d2f80-35c4-4f5e-8a9d-2f1f0a9c7e04", by decide⟩ }

/-- An hour later the sidecar lists nothing. -/
def later : Supply := { supply with accounts := [], now := supply.now + 3600000 }

/-- A wizard mints its QR, and an admin reattaches the number to its endpoint. -/
def wizard : List Action :=
  .call 0 (.startQr account ⟨.signal, "desk", some "umg", none⟩) :: List.replicate 6 (.advance 0 qr) ++
    .call 1 (.reattach account qr.rowId "+380671112233") :: List.replicate 5 (.advance 1 supply)

def poll : List Action := .call 2 (.poll account qr.rowId) :: List.replicate 4 (.advance 2 later)

end Sample

/-- `reattach` leaves the wizard's session in place, and a later poll fails the endpoint for it. -/
theorem link_expires : ¬ ∀ id s, (system fun _ => True).init s → ∀ as,
    (system fun _ => True).Lasts (fun t => t.endpoints.Linked id) (UnlinkSucceeds id) s as ∧
      (system fun _ => True).Moves (KeepsExternalId id) s as := by
  intro h
  have hlasts := (h Sample.qr.rowId Sample.idle ⟨trivial, fun _ => rfl⟩ (Sample.wizard ++ Sample.poll)).1
  have hlinked : (((system fun _ => True).replay Sample.idle Sample.wizard).map fun t =>
      (decide (t.endpoints.Linked Sample.qr.rowId),
        decide ((system fun _ => True).Obeys (fun t a => ¬ UnlinkSucceeds Sample.qr.rowId t a) t Sample.poll),
        ((system fun _ => True).replay t Sample.poll).map fun u => decide (u.endpoints.Linked Sample.qr.rowId))) =
      some (true, true, some false) := by
    decide
  obtain ⟨t, ht, hrest⟩ := Option.map_eq_some_iff.mp hlinked
  simp only [Prod.mk.injEq, decide_eq_true_eq] at hrest
  obtain ⟨hbefore, hends, hafter⟩ := hrest
  obtain ⟨u, hu, hafter⟩ := Option.map_eq_some_iff.mp hafter
  exact of_decide_eq_false hafter (hlasts _ _ (List.prefix_refl _) t u ht hu hbefore hends)

end MessagingGateway.Provisioning
