import MessagingGateway.Access.Downloads
import MessagingGateway.Transition.Guarded

/-! A revoked token: no guard takes it again, whatever happens afterwards. -/
namespace MessagingGateway.Access
open Js Transition System
variable {ι : Type*} [DecidableEq ι] {d : Digests} {env : Settings} {s t u : State ι}

/-- No token is made whose digest the table has already. -/
def Fresh (d : Digests) (s : State ι) : Action ι → Prop
  | .generate _ _ _ bytes => ∀ row ∈ s.tokens, row.tokenHash ≠ d.sha256 ("umg_" ++ hexText bytes)
  | _ => True

def Distinct (s : State ι) : Prop :=
  ∀ row ∈ s.tokens, ∀ row' ∈ s.tokens, row.tokenHash = row'.tokenHash → row.id = row'.id

/-- The digest is in the table, and only in rows that are revoked. -/
structure Revoked (hash : String) (s : State ι) : Prop where
  present : ∃ row ∈ s.tokens, row.tokenHash = hash
  revoked : ∀ row ∈ s.tokens, row.tokenHash = hash → row.revokedAt ≠ none

private theorem distinct_step {a : Action ι} (h : Distinct s) (hg : Fresh d s a) (hs : step d env s a = some t) :
    Distinct t := by
  cases step_effect hs with
  | quiet _ _ htokens =>
    rw [Distinct, htokens]
    exact h
  | generate hguard hfresh =>
    intro row hrow row' hrow' hsame
    rcases List.mem_cons.mp hrow with rfl | hrow <;> rcases List.mem_cons.mp hrow' with rfl | hrow'
    · rfl
    · exact absurd hsame.symm (hg row' hrow')
    · exact absurd hsame (hg row hrow)
    · exact h row hrow row' hrow' hsame
  | rewrite hid hhash _ _ =>
    intro row hrow row' hrow' hsame
    obtain ⟨old, hold, rfl⟩ := List.mem_map.mp hrow
    obtain ⟨old', hold', rfl⟩ := List.mem_map.mp hrow'
    rw [hid, hid]
    rw [hhash, hhash] at hsame
    exact h old hold old' hold' hsame
  | login => exact h
  | sign => exact h
  | canActivate => exact h
  | serve => exact h

/-- Rows are never dropped, so the digest of a revoked token is never given out again. -/
theorem revoked_step {hash : String} {a : Action ι} (h : Revoked hash s) (hg : Fresh d s a)
    (hs : step d env s a = some t) : Revoked hash t := by
  obtain ⟨⟨row, hrow, hhash⟩, hrevoked⟩ := h
  cases step_effect hs with
  | quiet _ _ htokens =>
    refine ⟨⟨row, htokens ▸ hrow, hhash⟩, ?_⟩
    rw [htokens]
    exact hrevoked
  | generate hguard hfresh =>
    refine ⟨⟨row, List.mem_cons_of_mem _ hrow, hhash⟩, fun row' hrow' hhash' => ?_⟩
    rcases List.mem_cons.mp hrow' with rfl | hrow'
    · exact absurd (hhash.trans hhash'.symm) (hg row hrow)
    · exact hrevoked row' hrow' hhash'
  | rewrite hid hkeep _ hkept =>
    refine ⟨⟨_, List.mem_map_of_mem hrow, (hkeep row).trans hhash⟩, fun row' hrow' hhash' => ?_⟩
    obtain ⟨old, hold, rfl⟩ := List.mem_map.mp hrow'
    rw [hkeep] at hhash'
    intro hnone
    exact hrevoked old hold hhash' (hkept old hnone)
  | login => exact ⟨⟨row, hrow, hhash⟩, hrevoked⟩
  | sign => exact ⟨⟨row, hrow, hhash⟩, hrevoked⟩
  | canActivate => exact ⟨⟨row, hrow, hhash⟩, hrevoked⟩
  | serve => exact ⟨⟨row, hrow, hhash⟩, hrevoked⟩

private theorem revoked_of_revoke {r : Request} {row : GlobalApiToken} (hdistinct : Distinct s) (hrow : row ∈ s.tokens)
    (hs : step d env s (.revoke r row.id) = some t) : Revoked row.tokenHash t := by
  obtain ⟨user, -, rfl⟩ := Option.map_eq_some_iff.mp hs
  refine ⟨⟨_, List.mem_map_of_mem hrow, setRevoked_tokenHash _ _ _⟩, fun row' hrow' hhash => ?_⟩
  obtain ⟨old, hold, rfl⟩ := List.mem_map.mp hrow'
  rw [setRevoked_tokenHash] at hhash
  rw [setRevoked, if_pos (hdistinct old hold row hrow hhash)]
  simp

omit [DecidableEq ι] in
private theorem findToken_revoked {token : String} (h : Revoked (d.sha256 token) s) :
    findToken d s.toStore token = none := by
  rw [findToken, List.find?_eq_none]
  intro row hrow
  simp only [decide_eq_true_eq, not_and]
  exact h.revoked row hrow

/-- After a token is revoked, in every later state of every run, a request that brings it is
turned away by the token guards, but for a live session it brings along, and gets from the media
guard what it would get without it. -/
theorem revocation_final (h : (system d env).ReachableUnder (Fresh d) s) {row : GlobalApiToken} (hrow : row ∈ s.tokens)
    {r₀ : Request} (hrevoke : step d env s (.revoke r₀ row.id) = some t) {as : List (Action ι)}
    (hfresh : (system d env).Obeys (Fresh d) t as) (hrun : (system d env).replay t as = some u)
    {token : String} (htoken : row.tokenHash = d.sha256 token) {r : Request} (hbearer : bearer r = some token) :
    ApiTokenGuard d u.toStore r = .error (.unauthorized "Недійсний API token.") ∧
      SessionOrTokenGuard d u.toStore r =
        (sessionUser u.toStore r).elim (.error (.unauthorized "Недійсний API token."))
        (fun user => .ok (.session user)) ∧
      MediaAccessGuard d env u.toStore r = MediaAccessGuard d env u.toStore { r with authorization := none } := by
  have hdistinct : Distinct s := h.invariant (I := Distinct)
    (fun s hs => by
      obtain ⟨-, -, -, htokens, -⟩ := hs
      simp [Distinct, htokens])
    (fun s a t hd hg hs => distinct_step hd hg hs)
  have hrevoked : Revoked (d.sha256 token) u := by
    rw [← htoken]
    exact obeys_invariant (G := Fresh d) (I := Revoked row.tokenHash) (fun s a t hr hg hs => revoked_step hr hg hs)
      (revoked_of_revoke hdistinct hrow hrevoke) hfresh hrun
  have hfind := findToken_revoked hrevoked
  refine ⟨?_, ?_, ?_⟩
  · rw [ApiTokenGuard, hbearer]
    dsimp only
    rw [hfind]
  · rw [SessionOrTokenGuard, hbearer]
    dsimp only
    rw [hfind]
    cases sessionUser u.toStore r <;> rfl
  · have hnone : bearer { r with authorization := none } = none := rfl
    have hsession : sessionUser u.toStore { r with authorization := none } = sessionUser u.toStore r := rfl
    rw [MediaAccessGuard, MediaAccessGuard, hsession, hbearer, hnone]
    dsimp only [Option.bind_some, Option.bind_none]
    rw [hfind]
    rfl

namespace Sample

def login : List (Action Unit) := [.bootstrapAdmin "1" "pw", .login "sid" "admin" "pw"]

private theorem issued_fresh : (system digests settings).Obeys (Fresh digests) empty issued := by
  have hissued : issued = login ++ [.generate admin "t1" "backup" [0xab, 7]] := rfl
  rw [hissued, obeys_append]
  refine ⟨obeys_of_forall (by simp [login, Fresh]) _, fun t ht => ?_⟩
  have htokens : ((system digests settings).replay empty login).map (·.tokens) = some [] := by
    rfl
  rw [ht] at htokens
  simp only [Option.map_some, Option.some.injEq] at htokens
  rw [Obeys]
  split
  · trivial
  · exact ⟨by simp [Fresh, htokens], trivial⟩

end Sample

/-- The token is revoked and the session goes on: only the session still opens a route. -/
theorem revocation_final_issued : ∃ u : State Unit,
    ApiTokenGuard Sample.digests u.toStore Sample.program = .error (.unauthorized "Недійсний API token.") ∧
    SessionOrTokenGuard Sample.digests u.toStore Sample.program = .error (.unauthorized "Недійсний API token.") ∧
    SessionOrTokenGuard Sample.digests u.toStore { Sample.program with session := some "sid" } =
      .ok (.session ⟨"1", "admin"⟩) ∧
    MediaAccessGuard Sample.digests Sample.settings u.toStore Sample.program =
      MediaAccessGuard Sample.digests Sample.settings u.toStore { Sample.program with authorization := none } := by
  have hissued : ((system Sample.digests Sample.settings).replay Sample.empty Sample.issued).bind (fun s =>
      (step Sample.digests Sample.settings s (.revoke Sample.admin "t1")).bind fun t =>
        ((system Sample.digests Sample.settings).replay t [.store Sample.photo]).map fun u =>
          (s.tokens, u.sessions "sid")) =
      some ([⟨"t1", "backup", "digest of umg_ab07", none, none⟩], some ⟨"1", "admin"⟩) := by
    rfl
  obtain ⟨s, hs, hissued⟩ := Option.bind_eq_some_iff.mp hissued
  obtain ⟨t, ht, hissued⟩ := Option.bind_eq_some_iff.mp hissued
  obtain ⟨u, hu, hmade⟩ := Option.map_eq_some_iff.mp hissued
  obtain ⟨htokens, hsession⟩ := Prod.mk.inj hmade
  have hrow : (⟨"t1", "backup", "digest of umg_ab07", none, none⟩ : GlobalApiToken) ∈ s.tokens := by simp [htokens]
  have hlater : ∀ a ∈ [Action.store Sample.photo], ∀ s : State Unit, Fresh Sample.digests s a := by simp [Fresh]
  have hreach := ReachableUnder.replay (.init Sample.empty_init) Sample.issued_fresh hs
  obtain ⟨hapi, hroute, hmedia⟩ := revocation_final hreach hrow ht (obeys_of_forall hlater t) hu rfl
    (r := Sample.program) rfl
  obtain ⟨-, hwith, -⟩ := revocation_final hreach hrow ht (obeys_of_forall hlater t) hu rfl
    (r := { Sample.program with session := some "sid" }) rfl
  have hlive : sessionUser u.toStore { Sample.program with session := some "sid" } = some ⟨"1", "admin"⟩ := hsession
  refine ⟨u, hapi, hroute, ?_, hmedia⟩
  rw [hwith, hlive, Option.elim_some]

end MessagingGateway.Access
