import MessagingGateway.Provisioning.Wizard

/-! Who owns a sidecar account. Only the orphan strategy of `poll` looks at other endpoints,
and every link is a plain update, so ownership rests on what the table holds at that write. -/
namespace MessagingGateway.Provisioning
open Transition

namespace EndpointRow

def LinkedAs (row : EndpointRow) (externalId : String) : Prop :=
  row.registrationState = .linked ∧ row.externalId = some externalId

instance (row : EndpointRow) (x : String) : Decidable (row.LinkedAs x) :=
  inferInstanceAs (Decidable (_ ∧ _))

/-- The update leaves the row its key and its account. -/
def Keeps (f : EndpointRow → EndpointRow) : Prop := ∀ row, (f row).id = row.id ∧ (f row).accountId = row.accountId

/-- The update leaves no row linked. -/
def Unlinks (f : EndpointRow → EndpointRow) : Prop := ∀ row, (f row).registrationState ≠ .linked

end EndpointRow

/-- No two endpoints of an account are linked to the same sidecar account. -/
def Endpoints.SingleOwner (rows : Endpoints) : Prop :=
  ∀ e ∈ rows, ∀ f ∈ rows, e.accountId = f.accountId → ∀ x, e.LinkedAs x → f.LinkedAs x → e.id = f.id

/-- The link a call is about to write: the endpoint's id and its new content. -/
def Phase.linking (now : Nat) : Phase → Option (Uuid × (EndpointRow → EndpointRow))
  | .pollLink endpoint found => some (endpoint.id, .polled endpoint found now)
  | .reattachLink endpoint found => some (endpoint.id, .reattached found now)
  | _ => none

/-- A link that the table accepts finds no other endpoint of the account linked to the
external id it writes. -/
def Endpoints.Free (rows : Endpoints) (id : Uuid) (f : EndpointRow → EndpointRow) : Prop :=
  (rows.update id f).isSome → ∀ e ∈ rows, e.id = id → ∀ other ∈ rows, other.accountId = e.accountId →
    other.registrationState = .linked → (f e).externalId.isSome → other.externalId = (f e).externalId → other.id = id

instance (rows : Endpoints) (id : Uuid) (f : EndpointRow → EndpointRow) : Decidable (rows.Free id f) := by
  unfold Endpoints.Free
  exact @forall_prop_decidable _ _ _ fun _ => inferInstance

def Unclaimed (s : State) : Action → Prop
  | .advance c supply => ∀ link ∈ (s.calls c).bind (Phase.linking supply.now), s.endpoints.Free link.1 link.2
  | _ => True

instance (s : State) (a : Action) : Decidable (Unclaimed s a) := by
  cases a with
  | advance c supply =>
    unfold Unclaimed
    infer_instance
  | _ => exact .isTrue trivial

/-- The outcomes of one await for the endpoint table. -/
inductive Change (rows : Endpoints) (now : Nat) (phase : Phase) : Endpoints → Prop
  | same : Change rows now phase rows
  | created (row : EndpointRow) : row.registrationState ≠ .linked → Change rows now phase (rows ++ [row])
  | unlinked (id : Uuid) (f : EndpointRow → EndpointRow) (rows' : Endpoints) : EndpointRow.Keeps f →
      EndpointRow.Unlinks f → rows.update id f = some rows' → Change rows now phase rows'
  | linked (id : Uuid) (f : EndpointRow → EndpointRow) (rows' : Endpoints) : phase.linking now = some (id, f) →
      rows.update id f = some rows' → Change rows now phase rows'

theorem Endpoints.update_eq {rows rows' : Endpoints} {id : Uuid} {f : EndpointRow → EndpointRow}
    (h : rows.update id f = some rows') :
    (∃ e ∈ rows, e.id = id) ∧ rows' = rows.map fun row => if row.id = id then f row else row := by
  obtain ⟨e, he, h⟩ := Option.bind_eq_some_iff.mp h
  split at h
  · exact absurd h (by simp)
  · exact ⟨⟨e, List.mem_of_find?_eq_some he, by simpa using List.find?_some he⟩, (Option.some.inj h).symm⟩

private theorem Change.of_unlinked {rows : Endpoints} {now : Nat} {phase : Phase} (id : Uuid)
    {f : EndpointRow → EndpointRow} (hkeeps : EndpointRow.Keeps f) (hunlinks : EndpointRow.Unlinks f) :
    Change rows now phase ((rows.update id f).getD rows) := by
  cases h : rows.update id f with
  | none => exact .same
  | some rows' => exact .unlinked id f rows' hkeeps hunlinks h

private theorem Change.of_linked {rows : Endpoints} {now : Nat} {phase : Phase} (id : Uuid)
    {f : EndpointRow → EndpointRow} (hlinking : phase.linking now = some (id, f)) :
    Change rows now phase ((rows.update id f).getD rows) := by
  cases h : rows.update id f with
  | none => exact .same
  | some rows' => exact .linked id f rows' hlinking h

private theorem advance_change {rows rows' : Endpoints} {supply : Supply} {phase phase' : Phase}
    (h : advance rows supply phase = some (rows', phase')) : Change rows supply.now phase rows' := by
  rcases advance_endpoints h with ⟨id, f, hwrite, rfl⟩ | ⟨-, rfl | ⟨accountId, dto, name, rfl⟩⟩
  · cases phase with
    | pollLink | reattachLink => exact .of_linked id hwrite
    | qrDisplay =>
      obtain ⟨rfl, rfl⟩ := Prod.mk.inj (Option.some.inj hwrite)
      exact .of_unlinked _ (fun row => ⟨rfl, rfl⟩) fun row => by simp [EndpointRow.displayed]
    | qrMarkFailed | pollExpire =>
      obtain ⟨rfl, rfl⟩ := Prod.mk.inj (Option.some.inj hwrite)
      exact .of_unlinked _ (fun row => ⟨rfl, rfl⟩) fun row => by simp [EndpointRow.markedFailed]
    | unlinkUpdate =>
      obtain ⟨rfl, rfl⟩ := Prod.mk.inj (Option.some.inj hwrite)
      exact .of_unlinked _ (fun row => ⟨rfl, rfl⟩) fun row => by simp [EndpointRow.unpaired]
    | _ => exact absurd hwrite (by simp [Phase.write])
  · exact .same
  · rw [Endpoints.create]
    split
    · exact .same
    · exact .created _ (by simp [EndpointRow.pending])

private theorem linking_keeps {phase : Phase} {now : Nat} {id : Uuid} {f : EndpointRow → EndpointRow}
    (h : phase.linking now = some (id, f)) : EndpointRow.Keeps f ∧ ∀ row, (f row).registrationState = .linked := by
  cases phase with
  | pollLink endpoint found | reattachLink endpoint found =>
    obtain ⟨-, rfl⟩ := Prod.mk.inj (Option.some.inj h)
    exact ⟨fun row => ⟨rfl, rfl⟩, fun row => rfl⟩
  | _ => exact absurd h (by simp [Phase.linking])

/-- One step either leaves the table alone or is one of the changes of an await. -/
theorem step_change {s t : State} {a : Action} (h : step s a = some t) :
    t.endpoints = s.endpoints ∨ ∃ c supply phase, a = .advance c supply ∧ s.calls c = some phase ∧
      Change s.endpoints supply.now phase t.endpoints := by
  cases a with
  | call c request =>
    simp only [step] at h
    split at h
    · obtain rfl := Option.some.inj h
      exact .inl rfl
    · exact absurd h (by simp)
  | advance c supply =>
    obtain ⟨phase, hc, h⟩ := Option.bind_eq_some_iff.mp h
    obtain ⟨⟨rows, phase'⟩, hadvance, rfl⟩ := Option.map_eq_some_iff.mp h
    exact .inr ⟨c, supply, phase, rfl, hc, advance_change hadvance⟩
  | fail c =>
    obtain ⟨_, _, rfl⟩ := Option.map_eq_some_iff.mp h
    exact .inl rfl
  | die c =>
    obtain ⟨_, _, rfl⟩ := Option.map_eq_some_iff.mp h
    exact .inl rfl

/-- A row of the updated table comes from a row with its key and account. -/
private theorem mem_updated {rows : Endpoints} {id : Uuid} {f : EndpointRow → EndpointRow} {row : EndpointRow}
    (h : row ∈ rows.map fun r => if r.id = id then f r else r) :
    ∃ r ∈ rows, (r.id = id ∧ row = f r) ∨ (r.id ≠ id ∧ row = r) := by
  obtain ⟨r, hr, rfl⟩ := List.mem_map.mp h
  by_cases hid : r.id = id
  · exact ⟨r, hr, .inl ⟨hid, if_pos hid⟩⟩
  · exact ⟨r, hr, .inr ⟨hid, if_neg hid⟩⟩

private theorem singleOwner_created {rows : Endpoints} (h : rows.SingleOwner) {row : EndpointRow}
    (hrow : row.registrationState ≠ .linked) : Endpoints.SingleOwner (rows ++ [row]) := by
  have hold : ∀ e ∈ rows ++ [row], ∀ x, e.LinkedAs x → e ∈ rows := by
    intro e he x hx
    rcases List.mem_append.mp he with he | he
    · exact he
    · rw [List.mem_singleton] at he
      exact absurd (he ▸ hx.1) hrow
  intro e he f hf hacc x hex hfx
  exact h e (hold e he x hex) f (hold f hf x hfx) hacc x hex hfx

private theorem singleOwner_unlinked {rows : Endpoints} (h : rows.SingleOwner) (id : Uuid)
    {f : EndpointRow → EndpointRow} (hunlinks : EndpointRow.Unlinks f) :
    Endpoints.SingleOwner (rows.map fun row => if row.id = id then f row else row) := by
  intro e he g hg hacc x hex hgx
  obtain ⟨r, hr, ⟨-, rfl⟩ | ⟨-, rfl⟩⟩ := mem_updated he
  · exact absurd hex.1 (hunlinks r)
  obtain ⟨q, hq, ⟨-, rfl⟩ | ⟨-, rfl⟩⟩ := mem_updated hg
  · exact absurd hgx.1 (hunlinks q)
  exact h e hr g hq hacc x hex hgx

private theorem singleOwner_linked {rows : Endpoints} (h : rows.SingleOwner) {id : Uuid}
    {f : EndpointRow → EndpointRow} (hkeeps : EndpointRow.Keeps f)
    (hfree : ∀ e ∈ rows, e.id = id → ∀ other ∈ rows, other.accountId = e.accountId → ∀ x,
      (f e).externalId = some x → other.LinkedAs x → other.id = id) :
    Endpoints.SingleOwner (rows.map fun row => if row.id = id then f row else row) := by
  intro e he g hg hacc x hex hgx
  obtain ⟨r, hr, ⟨hrid, rfl⟩ | ⟨hrid, rfl⟩⟩ := mem_updated he <;>
    obtain ⟨q, hq, ⟨hqid, rfl⟩ | ⟨hqid, rfl⟩⟩ := mem_updated hg
  · rw [(hkeeps r).1, (hkeeps q).1, hrid, hqid]
  · have hq' := hfree r hr hrid g hq (by rw [← hacc, (hkeeps r).2]) x hex.2 hgx
    exact absurd hq' hqid
  · have hr' := hfree q hq hqid e hr (by rw [hacc, (hkeeps q).2]) x hgx.2 hex
    exact absurd hr' hrid
  · exact h e hr g hq hacc x hex hgx

private theorem free_of_unclaimed {s : State} {c : Nat} {supply : Supply} {phase : Phase}
    (h : Unclaimed s (.advance c supply)) (hc : s.calls c = some phase) {id : Uuid} {f : EndpointRow → EndpointRow}
    (hlinking : phase.linking supply.now = some (id, f)) : s.endpoints.Free id f :=
  h (id, f) (by simp [hc, hlinking])

private theorem owner_kept (s : State) (a : Action) (t : State) (h : s.endpoints.SingleOwner) (hfree : Unclaimed s a)
    (hs : step s a = some t) : t.endpoints.SingleOwner := by
  rcases step_change hs with hsame | ⟨c, supply, phase, rfl, hc, hchange⟩
  · exact hsame ▸ h
  · generalize t.endpoints = rows at hchange
    cases hchange with
    | same => exact h
    | created row hrow => exact singleOwner_created h hrow
    | unlinked id f _ hkeeps hunlinks hup =>
      rw [(Endpoints.update_eq hup).2]
      exact singleOwner_unlinked h id hunlinks
    | linked id f _ hlinking hup =>
      have hfree := free_of_unclaimed hfree hc hlinking (by rw [hup]; rfl)
      rw [(Endpoints.update_eq hup).2]
      apply singleOwner_linked h (linking_keeps hlinking).1
      intro e he hid other hother hacc x hx hlinked
      exact hfree e he hid other hother hacc hlinked.1 (by rw [hx]; rfl) (hlinked.2.trans hx.symm)

/-- A link written over somebody else's account is accepted: the update checks only the uuid. -/
private theorem owner_broken (s : State) (a : Action) (t : State) (hclaimed : ¬ Unclaimed s a)
    (hs : step s a = some t) : ¬ t.endpoints.SingleOwner := by
  cases a with
  | advance c supply =>
    obtain ⟨phase, hc, hs⟩ := Option.bind_eq_some_iff.mp hs
    simp only [Unclaimed, hc, Option.bind_some, Option.mem_def, Prod.forall, not_forall] at hclaimed
    obtain ⟨id, f, hlinking, hclaimed⟩ := hclaimed
    simp only [Endpoints.Free, not_forall] at hclaimed
    obtain ⟨hup, e, he, hid, other, hother, hacc, hlinked, hsome, hx, hne⟩ := hclaimed
    obtain ⟨rows, hup⟩ := Option.isSome_iff_exists.mp hup
    obtain ⟨x, hx'⟩ := Option.isSome_iff_exists.mp hsome
    have ht : t.endpoints = rows := by
      obtain ⟨⟨rows', phase'⟩, hadvance, rfl⟩ := Option.map_eq_some_iff.mp hs
      cases phase with
      | pollLink endpoint found | reattachLink endpoint found =>
        obtain ⟨rfl, rfl⟩ := Prod.mk.inj (Option.some.inj hlinking)
        simp only [advance, hup, written, Option.some.injEq, Prod.mk.injEq] at hadvance
        exact hadvance.1.symm
      | _ => exact absurd hlinking (by simp [Phase.linking])
    obtain ⟨hkeeps, hstate⟩ := linking_keeps hlinking
    rw [ht, (Endpoints.update_eq hup).2]
    intro h
    have hmine : f e ∈ s.endpoints.map fun row => if row.id = id then f row else row :=
      List.mem_map.mpr ⟨e, he, if_pos hid⟩
    have htheirs : other ∈ s.endpoints.map fun row => if row.id = id then f row else row :=
      List.mem_map.mpr ⟨other, hother, if_neg hne⟩
    have hids := h other htheirs (f e) hmine (by rw [hacc, (hkeeps e).2]) x ⟨hlinked, hx.trans hx'⟩ ⟨hstate e, hx'⟩
    exact hne (by rw [hids, (hkeeps e).1, hid])
  | _ => exact absurd trivial hclaimed

/-- The orphan strategy does look: what it adopts, no other endpoint row of the account carries
at that moment. -/
theorem orphan_unclaimed {rows : Endpoints} {endpoint : EndpointRow} {claimed : List ProvisionedAccount}
    {found : ProvisionedAccount}
    (h : orphan claimed (rows.takenIds endpoint.accountId endpoint.id claimed) = some found) :
    ∃ x, found.externalId = some x ∧
      ∀ e ∈ rows, e.accountId = endpoint.accountId → e.externalId = some x → e.id = endpoint.id := by
  unfold orphan at h
  split at h
  · rename_i a horphan
    obtain rfl := Option.some.inj h
    have hmem : a ∈ claimed.filter _ := horphan ▸ List.mem_singleton_self a
    obtain ⟨hclaimed, horphan⟩ := List.mem_filter.mp hmem
    obtain ⟨x, htruthy, hx⟩ := (Option.any_eq_true _ _).mp horphan
    refine ⟨x, truthy_eq_some htruthy, fun e he hacc hex => ?_⟩
    by_contra hne
    apply of_decide_eq_true hx
    refine List.mem_filterMap.mpr ⟨e, List.mem_filter.mpr ⟨he, by simp [hacc, hne]⟩, ?_⟩
    rw [hex]
    exact Option.filter_eq_some_iff.mpr ⟨rfl, decide_eq_true (List.mem_filterMap.mpr ⟨a, hclaimed, htruthy⟩)⟩
  · exact absurd h (by simp)

/-- An account has one owner along a schedule exactly as long as every link that is written
finds it linked to no other endpoint. -/
theorem single_owner_iff {s : State} (h : (system Endpoints.SingleOwner).init s) (as : List Action) :
    (system Endpoints.SingleOwner).Along (fun t => t.endpoints.SingleOwner) s as ↔
      (system Endpoints.SingleOwner).Obeys Unclaimed s as := by
  refine System.along_iff_obeys (I := fun _ => True)
    (P := fun t : State => t.endpoints.SingleOwner) ?_ ?_ trivial h.1 as
  · intro s a t _ howner hfree hs
    exact ⟨trivial, owner_kept s a t howner hfree hs⟩
  · intro s a t _ _ hclaimed hs
    exact owner_broken s a t hclaimed hs

namespace Sample

def account : Uuid := ⟨"6b0d2f80-35c4-4f5e-8a9d-2f1f0a9c7e01", by decide⟩

def office : EndpointRow where
  id := ⟨"6b0d2f80-35c4-4f5e-8a9d-2f1f0a9c7e02", by decide⟩
  accountId := account
  label := "office"
  externalId := none
  phoneE164 := none
  uuid := none
  deviceName := none
  registrationState := .unpaired
  enabled := false
  registeredAt := none
  configJson := .empty

def support : EndpointRow :=
  { office with id := ⟨"6b0d2f80-35c4-4f5e-8a9d-2f1f0a9c7e03", by decide⟩, label := "support" }

/-- signal-cli lists a bare number. -/
def number : ProvisionedAccount := ⟨some "+380671112233", some "+380671112233", none, none⟩

/-- Of this one it knows the uuid as well. -/
def mobile : ProvisionedAccount :=
  ⟨some "+380671112244", some "+380671112244", some "c1a8f3de-2b70-4f4e-9d65-0a7c3f9e1b42", none⟩

def supply : Supply where
  adapter := ⟨true, true, true, true⟩
  accounts := [number, mobile]
  result := ⟨"", "", none, 0⟩
  rowId := account
  now := 1793188800000

def idle : State := ⟨[office, support], fun _ => none⟩

theorem idle_init : (system Endpoints.SingleOwner).init idle := by
  have hnone : ∀ e ∈ idle.endpoints, e.registrationState ≠ .linked := by decide
  exact ⟨fun e he f _ _ x hx => absurd hx.1 (hnone e he), fun _ => rfl⟩

/-- `reattach` of the listed account to the endpoint, run to its end. -/
def reattach (c : Nat) (endpoint : EndpointRow) (externalId : String) : List Action :=
  .call c (.reattach account endpoint.id externalId) :: List.replicate 5 (.advance c supply)

/-- Each endpoint gets a number of its own. -/
def attached : List Action := reattach 0 office "+380671112233" ++ reattach 1 support "+380671112244"

end Sample

/-- The same number is reattached to one endpoint and then to another. -/
theorem account_stolen :
    ¬ ∀ s, (system Endpoints.SingleOwner).Reachable s → s.endpoints.SingleOwner := by
  intro h
  have hrun : (((system Endpoints.SingleOwner).replay Sample.idle
      (Sample.reattach 0 Sample.office "+380671112233" ++ Sample.reattach 1 Sample.support "+380671112233")).map
        fun t =>
        t.endpoints.map fun e => (e.accountId, e.id, decide (e.LinkedAs "+380671112233"))) =
      some [(Sample.account, Sample.office.id, true), (Sample.account, Sample.support.id, true)] := by
    decide
  obtain ⟨t, ht, hrows⟩ := Option.map_eq_some_iff.mp hrun
  have howner := h t (System.Reachable.of_replay Sample.idle_init ht)
  obtain ⟨e, f, hrows'⟩ := List.length_eq_two.mp (show t.endpoints.length = 2 by simpa using congrArg List.length hrows)
  simp only [hrows', List.map_cons, List.map_nil, List.cons.injEq, Prod.mk.injEq, decide_eq_true_eq, and_true] at hrows
  obtain ⟨⟨hea, heid, hex⟩, hfa, hfid, hfx⟩ := hrows
  have hids := howner e (by simp [hrows']) f (by simp [hrows']) (hea.trans hfa.symm) _ hex hfx
  exact absurd (heid.symm.trans (hids.trans hfid)) (by decide)

theorem single_owner_reattached :
    (((system Endpoints.SingleOwner).replay Sample.idle Sample.attached).map fun t =>
      t.endpoints.map fun e => (e.externalId, e.registrationState)) =
        some [(some "+380671112233", .linked), (some "+380671112244", .linked)] ∧
      (system Endpoints.SingleOwner).Along (fun t => t.endpoints.SingleOwner) Sample.idle Sample.attached :=
  ⟨by decide, (single_owner_iff Sample.idle_init _).mpr (by decide)⟩

end MessagingGateway.Provisioning
