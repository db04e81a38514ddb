import MessagingGateway.Provisioning.Wizard

/-! Which account `poll` links. Its four strategies are meant in order of preference; the first
three are one search over the sidecar's list, in the sidecar's order. -/
namespace MessagingGateway.Provisioning

namespace EndpointRow
variable (endpoint : EndpointRow) (claimed : List ProvisionedAccount)

def byUuid : List ProvisionedAccount := claimed.filter fun a => sameSome endpoint.uuid a.uuid

def byPhone : List ProvisionedAccount := claimed.filter fun a => sameSome endpoint.phoneE164 a.phoneE164

def byDeviceName : List ProvisionedAccount := claimed.filter fun a => sameSome endpoint.deviceName a.deviceName

/-- The accounts the baseline does not know. -/
def news : List ProvisionedAccount := match endpoint.configJson.knownAccountsBefore with
  | some before => claimed.filter fun a => (truthy a.externalId).any fun x => x ∉ before
  | none => []

/-- The matches of the first strategy of the first three that has any. -/
def preferred : List ProvisionedAccount :=
  if endpoint.byUuid claimed ≠ [] then endpoint.byUuid claimed
  else if endpoint.byPhone claimed ≠ [] then endpoint.byPhone claimed
  else endpoint.byDeviceName claimed

def identified : List ProvisionedAccount := claimed.filter endpoint.identifies

/-- `poll` goes on to link the account, whatever the endpoint table holds. -/
def Links (a : ProvisionedAccount) : Prop := ∀ rows supply, supply.accounts = claimed →
  advance rows supply (.pollAccounts endpoint) = some (rows, .pollLink endpoint a)

/-- The strategies are tried in their order, and no order of the list decides between accounts. -/
structure Preference : Prop where
  uuid : endpoint.byUuid claimed ≠ [] → ∃ a ∈ endpoint.byUuid claimed, endpoint.Links claimed a
  phone : endpoint.byUuid claimed = [] → endpoint.byPhone claimed ≠ [] →
    ∃ a ∈ endpoint.byPhone claimed, endpoint.Links claimed a
  deviceName : endpoint.byUuid claimed = [] → endpoint.byPhone claimed = [] → endpoint.byDeviceName claimed ≠ [] →
    ∃ a ∈ endpoint.byDeviceName claimed, endpoint.Links claimed a
  fresh : endpoint.preferred claimed = [] → ∀ a, endpoint.news claimed = [a] → endpoint.Links claimed a
  stable : ∀ a, (endpoint.preferred claimed = [a] ∨ endpoint.preferred claimed = [] ∧ endpoint.news claimed = [a]) →
    ∀ claimed', claimed'.Perm claimed → endpoint.Links claimed' a

/-- The first account listed that any strategy identifies is a match of the preferred one, and
a match that is alone there is alone altogether. -/
def Ranked : Prop :=
  (∀ a, (endpoint.identified claimed).head? = some a → a ∈ endpoint.preferred claimed) ∧
    ∀ a, endpoint.preferred claimed = [a] → endpoint.identified claimed = [a]

section
variable {endpoint claimed} {claimed' : List ProvisionedAccount} {a b : ProvisionedAccount}

private theorem fresh_eq_some : endpoint.fresh claimed = some a ↔ endpoint.news claimed = [a] := by
  unfold fresh news
  cases endpoint.configJson.knownAccountsBefore with
  | none => simp
  | some before =>
    rw [Option.bind_some]
    dsimp only
    split
    · rename_i b hb
      rw [hb]
      simp
    · rename_i hmany
      exact iff_of_false nofun (hmany a)

/-- What `poll` makes of the list before it looks at other endpoints. -/
theorem settle_none {now : Nat} : settle endpoint none now ≠ .pollLink endpoint a := by
  unfold settle
  dsimp only
  split
  · split <;> nofun
  · nofun

private theorem links_iff : endpoint.Links claimed a ↔ (endpoint.identified claimed).head? = some a ∨
    endpoint.identified claimed = [] ∧ endpoint.news claimed = [a] := by
  have hdecided : endpoint.Links claimed a ↔
      (claimed.find? endpoint.identifies <|> endpoint.fresh claimed) = some a := by
    constructor
    · intro h
      let supply : Supply := ⟨⟨true, true, true, true⟩, claimed, ⟨"", "", none, 0⟩,
        ⟨String.ofList (List.replicate 36 'e'), by decide⟩, 0⟩
      have hstep := h [] supply rfl
      simp only [advance] at hstep
      split at hstep
      · rename_i found hfound
        cases hstep
        exact hfound
      · have hphase := (Prod.mk.inj (Option.some.inj hstep)).2
        split at hphase
        · exact absurd hphase settle_none
        · cases hphase
    · rintro h rows supply rfl
      simp only [advance, h]
  rw [hdecided, identified, List.head?_filter]
  cases hfind : claimed.find? endpoint.identifies with
  | none =>
    have hnone : claimed.filter endpoint.identifies = [] := List.filter_eq_nil_iff.mpr (List.find?_eq_none.mp hfind)
    simp [hnone, fresh_eq_some]
  | some b =>
    have hsome : claimed.filter endpoint.identifies ≠ [] :=
      List.ne_nil_of_mem (List.mem_filter.mpr ⟨List.mem_of_find?_eq_some hfind, List.find?_some hfind⟩)
    simp [hsome]

theorem Links.unique (ha : endpoint.Links claimed a) (hb : endpoint.Links claimed b) : a = b := by
  rcases links_iff.mp ha with ha | ⟨hnone, ha⟩
  · rcases links_iff.mp hb with hb | ⟨hnone, -⟩
    · exact Option.some.inj (ha.symm.trans hb)
    · simp [hnone] at ha
  · rcases links_iff.mp hb with hb | ⟨-, hb⟩
    · simp [hnone] at hb
    · exact List.singleton_inj.mp (ha.symm.trans hb)

/-- The preferred matches are those of one strategy. -/
theorem preferred_cases : ∃ p : ProvisionedAccount → Bool, (∀ a, p a → endpoint.identifies a) ∧
    endpoint.preferred claimed = claimed.filter p := by
  unfold preferred
  split_ifs
  · exact ⟨_, fun a h => by simp [identifies, h], rfl⟩
  · exact ⟨_, fun a h => by simp [identifies, h], rfl⟩
  · exact ⟨_, fun a h => by simp [identifies, h], rfl⟩

private theorem preferred_eq_nil : endpoint.preferred claimed = [] ↔ endpoint.identified claimed = [] := by
  constructor
  · intro h
    unfold preferred at h
    split_ifs at h with huuid hphone
    · exact absurd h huuid
    · exact absurd h hphone
    · rw [not_not] at huuid hphone
      simp only [byUuid, byPhone, byDeviceName, identified, List.filter_eq_nil_iff] at h huuid hphone ⊢
      intro a ha
      simp [identifies, huuid a ha, hphone a ha, h a ha]
  · intro h
    obtain ⟨p, hp, heq⟩ := @preferred_cases endpoint claimed
    rw [heq, List.filter_eq_nil_iff]
    intro a ha hpa
    exact List.filter_eq_nil_iff.mp h a ha (hp a hpa)

/-- Some order of the list puts any account it identifies first. -/
theorem links_first (h : a ∈ endpoint.identified claimed) : ∃ claimed' : List ProvisionedAccount,
    claimed'.Perm claimed ∧ endpoint.Links claimed' a := by
  obtain ⟨hmem, hidentified⟩ := List.mem_filter.mp h
  refine ⟨a :: claimed.erase a, (List.perm_cons_erase hmem).symm, links_iff.mpr (.inl ?_)⟩
  rw [identified, List.filter_cons, if_pos hidentified, List.head?_cons]

end

/-- Poll honours the order of preference on exactly the lists that leave it no other choice. -/
theorem preference_iff_ranked (endpoint : EndpointRow) (claimed : List ProvisionedAccount) :
    endpoint.Preference claimed ↔ endpoint.Ranked claimed := by
  obtain ⟨p, hp, hpreferred⟩ := @preferred_cases endpoint claimed
  constructor
  · intro h
    have hchosen : endpoint.preferred claimed ≠ [] → ∃ a ∈ endpoint.preferred claimed, endpoint.Links claimed a := by
      unfold preferred
      split_ifs with huuid hphone
      · intro _
        exact h.uuid huuid
      · intro _
        exact h.phone (not_not.mp huuid) hphone
      · exact h.deviceName (not_not.mp huuid) (not_not.mp hphone)
    constructor
    · intro a ha
      have hsome : endpoint.preferred claimed ≠ [] := by
        rw [Ne, preferred_eq_nil]
        intro hnone
        simp [hnone] at ha
      obtain ⟨b, hb, hlinks⟩ := hchosen hsome
      rwa [Links.unique (links_iff.mpr (.inl ha)) hlinks]
    · intro a ha
      -- every account identified can be put first, so it is the stable choice
      have hsame : ∀ b ∈ endpoint.identified claimed, b = a := by
        intro b hb
        obtain ⟨claimed', hperm, hlinks⟩ := links_first hb
        exact Links.unique hlinks (h.stable a (.inl ha) claimed' hperm)
      rw [hpreferred] at ha
      have hpa : p a := (List.mem_filter.mp (ha ▸ List.mem_singleton_self a)).2
      calc endpoint.identified claimed
          = (endpoint.identified claimed).filter p :=
            (List.filter_eq_self.mpr fun b hb => by rwa [hsame b hb]).symm
        _ = claimed.filter p := by
            rw [identified, List.filter_filter]
            exact List.filter_congr fun b _ => by
              cases hb : p b
              · rfl
              · simp [hp b hb]
        _ = [a] := ha
  · rintro ⟨hfirst, halone⟩
    have hchosen : endpoint.preferred claimed ≠ [] → ∃ a ∈ endpoint.preferred claimed, endpoint.Links claimed a := by
      intro hsome
      rw [Ne, preferred_eq_nil] at hsome
      obtain ⟨a, rest, hidentified⟩ := List.exists_cons_of_ne_nil hsome
      have hhead : (endpoint.identified claimed).head? = some a := by rw [hidentified, List.head?_cons]
      exact ⟨a, hfirst a hhead, links_iff.mpr (.inl hhead)⟩
    refine ⟨fun huuid => ?_, fun huuid hphone => ?_, fun huuid hphone hname => ?_, fun hnone a ha => ?_,
      fun a ha claimed' hperm => ?_⟩
    · rw [preferred, if_pos huuid] at hchosen
      exact hchosen huuid
    · rw [preferred, if_neg (not_not.mpr huuid), if_pos hphone] at hchosen
      exact hchosen hphone
    · rw [preferred, if_neg (not_not.mpr huuid), if_neg (not_not.mpr hphone)] at hchosen
      exact hchosen hname
    · exact links_iff.mpr (.inr ⟨preferred_eq_nil.mp hnone, ha⟩)
    · have hidentified : (endpoint.identified claimed').Perm (endpoint.identified claimed) := hperm.filter _
      rcases ha with ha | ⟨hnone, ha⟩
      · rw [halone a ha, List.perm_singleton] at hidentified
        exact links_iff.mpr (.inl (by rw [hidentified, List.head?_cons]))
      · rw [preferred_eq_nil.mp hnone, List.perm_nil] at hidentified
        refine links_iff.mpr (.inr ⟨hidentified, ?_⟩)
        have hnews : (endpoint.news claimed').Perm (endpoint.news claimed) := by
          unfold news
          split
          · exact hperm.filter _
          · exact .nil
        rwa [ha, List.perm_singleton] at hnews

end EndpointRow

namespace Sample

/-- A Signal endpoint that knows its uuid, and its number. -/
def paired : EndpointRow where
  id := ⟨"c1b9b1de-0d0c-4c36-a1f3-54a2f6a78f21", by decide⟩
  accountId := ⟨"a7d2f5c0-1f8a-4b55-8a53-6f6f2f0f8b11", by decide⟩
  label := "Support"
  externalId := none
  phoneE164 := some "+380671112233"
  uuid := some "6f0a4a9e"
  deviceName := some "umg-1"
  registrationState := .qrDisplayed
  enabled := false
  registeredAt := none
  configJson := .empty

def byNumber : ProvisionedAccount := ⟨some "+380671112233", some "+380671112233", some "1d3c8e8a", none⟩

def byUuid : ProvisionedAccount := ⟨some "+380509998877", some "+380509998877", some "6f0a4a9e", none⟩

end Sample

/-- The sidecar lists the account that has the number before the one that has the uuid. -/
theorem number_before_uuid : ¬ ∀ (endpoint : EndpointRow) (claimed : List ProvisionedAccount),
    endpoint.Preference claimed := by
  intro h
  obtain ⟨a, ha, hlinks⟩ := (h Sample.paired [Sample.byNumber, Sample.byUuid]).uuid (by decide)
  obtain rfl : a = Sample.byUuid := List.mem_singleton.mp ha
  have hfirst := EndpointRow.links_iff.mp hlinks
  revert hfirst
  decide

end MessagingGateway.Provisioning
