import MessagingGateway.Inbound.Steps
import MessagingGateway.Transition.CheckThenInsert

/-! Inbound de-duplication is a check-then-insert on `(endpointId, externalId)`; the
database adds nothing to it, so it holds as long as the windows of one key do not overlap. -/
namespace MessagingGateway.Inbound
open Transition

abbrev ExternalKey := Uuid × String

def PersistCall.key (call : PersistCall) : Option ExternalKey :=
  call.externalId.map fun x => (call.endpoint.id, x)

namespace Database

def rowsWith (db : Database) (k : ExternalKey) : List MessageRow :=
  db.messages.filter fun m => m.endpointId = k.1 ∧ m.externalId = some k.2

/-- At most one message per endpoint and non-null external id. -/
def ExternalIdsUnique (db : Database) : Prop := ∀ k, (db.rowsWith k).length ≤ 1

private theorem rowsWith_length_zero {db : Database} {k : ExternalKey} (h : db.findMessage k.1 k.2 = none) :
    (db.rowsWith k).length = 0 := by
  rw [List.length_eq_zero_iff, rowsWith, List.filter_eq_nil_iff]
  intro m hm
  simpa [findMessage] using List.find?_eq_none.mp h m hm

end Database

/-- The key a call has looked up in vain and is about to insert. -/
def heldKey (call : Option PersistCall) : Option ExternalKey :=
  call.bind fun call => if call.phase.Pending then call.key else none

private theorem heldKey_pending {call : PersistCall} (h : call.phase.Pending) : heldKey (some call) = call.key := by
  simp [heldKey, h]

private theorem heldKey_not_pending {call : PersistCall} (h : ¬ call.phase.Pending) : heldKey (some call) = none := by
  simp [heldKey, h]

def pendingKey (s : State) (c : Nat) : Option ExternalKey := heldKey (s.calls c)

/-- The check-then-insert state behind the tables and the calls. -/
def window (s : State) : CheckThenInsert.State Nat ExternalKey where
  rows k := (s.db.rowsWith k).length
  pending := pendingKey s

/-- A call inserts its message only while no other call holds the same key pending. -/
def Exclusive (s : State) : Action → Prop
  | .advance c _ => ∀ call conversation, s.calls c = some call → call.phase = .createMessage conversation →
      ∀ d, d ≠ c → pendingKey s d = call.key → call.key = none
  | _ => True

private theorem window_update {s : State} {db : Database} (hdb : db.messages = s.db.messages) (c : Nat)
    (call : Option PersistCall) :
    window { db := db, calls := Function.update s.calls c call } =
      ⟨(window s).rows, Function.update (window s).pending c (heldKey call)⟩ := by
  apply congrArg₂ CheckThenInsert.State.mk
  · simp only [window, Database.rowsWith, hdb]
  · funext d
    rcases eq_or_ne d c with rfl | hne
    · simp [pendingKey]
    · simp [pendingKey, window, hne]

/-- A call that keeps its held key keeps the window. -/
private theorem window_same {s : State} {db : Database} (hdb : db.messages = s.db.messages) {c : Nat}
    {call : Option PersistCall} (hkey : heldKey call = heldKey (s.calls c)) :
    window { db := db, calls := Function.update s.calls c call } = window s := by
  rw [window_update hdb, hkey]
  exact congrArg (CheckThenInsert.State.mk _) (Function.update_eq_self c _)

/-- A call that lets go of its key drops it in the window. -/
private theorem window_drop {s : State} {db : Database} (hdb : db.messages = s.db.messages) (c : Nat)
    {call : Option PersistCall} (hkey : heldKey call = none) :
    CheckThenInsert.step (window s) (.drop c) =
      some (window { db := db, calls := Function.update s.calls c call }) := by
  rw [window_update hdb, hkey]
  rfl

private theorem rowsWith_created (db : Database) (call : PersistCall) (conversation id : Uuid) (now : Nat)
    (k : ExternalKey) :
    (Database.rowsWith { db with messages := db.messages ++ [messageRow call conversation id now] } k).length =
      (db.rowsWith k).length + if call.key = some k then 1 else 0 := by
  have hmatch : (call.endpoint.id = k.1 ∧ call.externalId = some k.2) ↔ call.key = some k := by
    rw [PersistCall.key, Option.map_eq_some_iff]
    constructor
    · rintro ⟨hid, hx⟩
      exact ⟨k.2, hx, Prod.ext hid rfl⟩
    · rintro ⟨x, hx, rfl⟩
      exact ⟨rfl, hx⟩
  simp only [Database.rowsWith, List.filter_append, List.length_append]
  by_cases hk : call.key = some k
  · simp [messageRow, hmatch.mpr hk, hk]
  · have hno : ¬ (call.endpoint.id = k.1 ∧ call.externalId = some k.2) := fun h => hk (hmatch.mp h)
    simp [messageRow, hno, hk]

/-- The insert of a message is the insert of its key, or of nothing the pattern counts. -/
private theorem window_created (supply : Supply) {s : State} {c : Nat} {call : PersistCall}
    {conversation : Uuid} (hex : Exclusive s (.advance c supply)) (hc : s.calls c = some call)
    (hphase : call.phase = .createMessage conversation) {t : State}
    (hmessages : t.db.messages = s.db.messages ++ [messageRow call conversation supply.rowId supply.now])
    (hcalls : t.calls = Function.update s.calls c
      (some { call with phase := .touchConversation conversation supply.rowId })) :
    window t = window s ∨ ∃ b, CheckThenInsert.Exclusive (window s) b ∧
      CheckThenInsert.step (window s) b = some (window t) := by
  have hheld : pendingKey s c = call.key := by
    rw [pendingKey, hc, heldKey_pending (by rw [hphase]; trivial)]
  have hrows : ∀ k, (t.db.rowsWith k).length =
      (s.db.rowsWith k).length + if call.key = some k then 1 else 0 := by
    intro k
    rw [← rowsWith_created s.db call conversation supply.rowId supply.now k]
    simp only [Database.rowsWith, hmessages]
  have hpending : pendingKey t = Function.update (pendingKey s) c none := by
    funext d
    rcases eq_or_ne d c with rfl | hne
    · simp [pendingKey, hcalls, heldKey, PersistPhase.Pending]
    · simp [pendingKey, hcalls, hne]
  cases hk : call.key with
  | none =>
    refine .inl (congrArg₂ CheckThenInsert.State.mk ?_ ?_)
    · funext k
      simp [hrows, hk]
    · rw [hpending, ← hk, ← hheld, Function.update_eq_self]
  | some k =>
    refine .inr ⟨.insert c, ?_, ?_⟩
    · intro d hd hsame
      have hnone := hex call conversation hc hphase d hd (hsame.trans hheld)
      exact absurd hnone (by simp [hk])
    · have hck : (window s).pending c = some k := hheld.trans hk
      simp only [CheckThenInsert.step, hck, Option.map_some]
      refine congrArg some (congrArg₂ CheckThenInsert.State.mk ?_ hpending.symm)
      funext l
      rcases eq_or_ne l k with rfl | hne
      · simp [window, hrows, hk]
      · simp [window, hrows, hk, hne, hne.symm]

/-- The tables refine the check-then-insert pattern: each step of persist is one of its
steps, allowed when the call is, or does not show there at all. -/
theorem window_step {s t : State} {a : Action} (hex : Exclusive s a) (hs : step s a = some t) :
    window t = window s ∨ ∃ b, CheckThenInsert.Exclusive (window s) b ∧
      CheckThenInsert.step (window s) b = some (window t) := by
  cases a with
  | call c inbound endpoint channelType =>
    simp only [step] at hs
    split at hs
    · rename_i hnone
      obtain rfl := Option.some.inj hs
      have hc : s.calls c = none := by simpa using hnone
      refine .inl (window_same rfl ?_)
      by_cases hx : inbound.externalId = ""
      · rw [hc, heldKey_pending (by simp [firstPhase, hx, PersistPhase.Pending])]
        simp [PersistCall.key, PersistCall.externalId, hx, truthy, heldKey]
      · rw [hc, heldKey_not_pending (by simp [firstPhase, hx, PersistPhase.Pending])]
        rfl
    · exact absurd hs (by simp)
  | fail c =>
    obtain ⟨call, hc, hs⟩ := Option.bind_eq_some_iff.mp hs
    obtain ⟨call', hfail, rfl⟩ := Option.map_eq_some_iff.mp hs
    obtain rfl := failed_phase hfail
    exact .inr ⟨.drop c, trivial, window_drop rfl c (heldKey_not_pending id)⟩
  | die c =>
    obtain ⟨call, hc, rfl⟩ := Option.map_eq_some_iff.mp hs
    exact .inr ⟨.drop c, trivial, window_drop rfl c rfl⟩
  | advance c supply =>
    obtain ⟨call, hc, hs⟩ := Option.bind_eq_some_iff.mp hs
    obtain ⟨⟨db, phase⟩, hadv, rfl⟩ := Option.map_eq_some_iff.mp hs
    -- a call that is outside its window before and after the step
    have outside (hbefore : ¬ call.phase.Pending) (hafter : ¬ phase.Pending)
        (hdb : db.messages = s.db.messages) :
        window { db := db, calls := Function.update s.calls c (some { call with phase := phase }) } =
          window s := by
      apply window_same hdb
      rw [hc, heldKey_not_pending hbefore, heldKey_not_pending hafter]
    cases advance_progress hadv with
    | found m hphase => exact .inl (outside (by rw [hphase]; exact id) id rfl)
    | missed hphase hnone =>
      have hheld : heldKey (some { call with phase := .findConversation }) = call.key :=
        heldKey_pending trivial
      cases hx : call.externalId with
      | none =>
        refine .inl (window_same rfl ?_)
        rw [hheld, hc, heldKey_not_pending (by rw [hphase]; exact id), PersistCall.key, hx, Option.map_none]
      | some x =>
        have hzero := Database.rowsWith_length_zero (k := (call.endpoint.id, x)) (by simpa [hx] using hnone)
        refine .inr ⟨.miss c (call.endpoint.id, x), trivial, ?_⟩
        rw [window_update rfl, hheld, PersistCall.key, hx]
        exact if_pos hzero
    | threaded _ _ hpending hnext hdb _ =>
      rcases hnext with hnext | rfl
      · refine .inl (window_same hdb ?_)
        rw [hc, heldKey_pending hpending, heldKey_pending hnext]
        rfl
      · exact .inr ⟨.drop c, trivial, window_drop hdb c (heldKey_not_pending id)⟩
    | created conversation supply' hphase =>
      exact window_created supply' hex hc hphase rfl rfl
    | carried _ _ m hm _ hunf hdb _ =>
      refine .inl (outside ?_ (fun h => h.not_unfinished hunf) hdb)
      cases hp : call.phase <;> simp_all [PersistPhase.created, PersistPhase.Pending]
    | emitted conversation m supply hphase => exact .inl (outside (by rw [hphase]; exact id) id rfl)
    | deduplicated conversation m supply hphase => exact .inl (outside (by rw [hphase]; exact id) id rfl)
    | reused key event hphase => exact .inl (outside (by rw [hphase]; exact id) id rfl)
    | lost hphase => exact .inl (outside (by rw [hphase]; exact id) id rfl)

/-- Messages stay unique per endpoint and external id in every run in which no call
inserts while another call of the same key is past its lookup and not yet inserted. -/
theorem external_ids_unique_of_exclusive {s : State}
    (h : (system Database.ExternalIdsUnique).ReachableUnder Exclusive s) : s.db.ExternalIdsUnique := by
  obtain ⟨w, hw, rfl⟩ := System.reachableUnder_simulated (C := system Database.ExternalIdsUnique)
    (A := CheckThenInsert.system)
    (R := fun s w => window s = w) (H := CheckThenInsert.Exclusive)
    (fun s hs => ⟨window s, ⟨hs.1, fun c => congrArg heldKey (hs.2 c)⟩, rfl⟩)
    (fun s w a t hr hex hs => by
      subst hr
      rcases window_step hex hs with hsame | ⟨b, hb, hstep⟩
      · exact .inl hsame
      · exact .inr ⟨b, window t, hb, hstep, rfl⟩) h
  exact CheckThenInsert.unique_of_exclusive hw

/-- The guard gives nothing away: two calls of one key that have both missed it both
insert, whatever the tables hold. -/
theorem overlap_duplicates {s : State} {c d : Nat} (hcd : c ≠ d) {call other : PersistCall}
    {v w : Uuid} {k : ExternalKey} (hc : s.calls c = some call) (hd : s.calls d = some other)
    (hcp : call.phase = .createMessage v) (hdp : other.phase = .createMessage w)
    (hck : call.key = some k) (hdk : other.key = some k) (first second : Supply) :
    ∃ t, (system Database.ExternalIdsUnique).replay s [.advance c first, .advance d second] = some t ∧
      ¬ t.db.ExternalIdsUnique := by
  refine ⟨?_, ?_, ?_⟩
  · exact
      { db := { s.db with
          messages := s.db.messages ++ [messageRow call v first.rowId first.now] ++
            [messageRow other w second.rowId second.now] }
        calls := Function.update
          (Function.update s.calls c (some { call with phase := .touchConversation v first.rowId })) d
          (some { other with phase := .touchConversation w second.rowId }) }
  · simp [System.replay, system, step, hc, hd, hcd.symm, advance, hcp, hdp]
  · intro hunique
    let db₁ : Database := { s.db with messages := s.db.messages ++ [messageRow call v first.rowId first.now] }
    have h₁ : (db₁.rowsWith k).length = _ := rowsWith_created s.db call v first.rowId first.now k
    have h₂ := rowsWith_created db₁ other w second.rowId second.now k
    rw [h₁, if_pos hck, if_pos hdk] at h₂
    have hk : _ ≤ 1 := hunique k
    rw [show (Database.rowsWith _ k).length = _ from h₂] at hk
    omega

/-- The guard as finitely many calls can be tested for it. -/
def ExclusiveBelow (n : Nat) (s : State) : Action → Prop
  | .advance c _ => ∀ call ∈ s.calls c, call.phase.Pending →
      ∀ d < n, d ≠ c → pendingKey s d = call.key → call.key = none
  | _ => True

instance (n : Nat) (s : State) : (a : Action) → Decidable (ExclusiveBelow n s a)
  | .advance c _ => inferInstanceAs (Decidable (∀ call ∈ s.calls c, _ → ∀ d < n, _))
  | .call .. | .fail _ | .die _ => .isTrue trivial

private theorem exclusive_of_below {n : Nat} {s : State} {a : Action} (hidle : ∀ d, n ≤ d → s.calls d = none)
    (h : ExclusiveBelow n s a) : Exclusive s a := by
  cases a with
  | advance c supply =>
    intro call conversation hc hphase d hd hsame
    rcases Nat.lt_or_ge d n with hlt | hge
    · exact h call hc (hphase ▸ trivial) d hlt hd hsame
    · rw [pendingKey, hidle d hge] at hsame
      exact hsame.symm
  | _ => trivial

namespace Sample

def supply : Supply where
  rowId := ⟨"9d2b7c52-6f0a-4a9e-9a43-5f7d1c3e7a01", by decide⟩
  now := 1793188800000
  stamp := ⟨⟨"9d2b7c52-6f0a-4a9e-9a43-5f7d1c3e7a02", by decide⟩,
    ⟨"9d2b7c52-6f0a-4a9e-9a43-5f7d1c3e7a03", by decide⟩, "2026-10-28T12:00:00.000Z"⟩
  file := none

def second : Supply := { supply with rowId := ⟨"9d2b7c52-6f0a-4a9e-9a43-5f7d1c3e7a04", by decide⟩ }

def endpoint : Endpoint where
  id := ⟨"c1b9b1de-0d0c-4c36-a1f3-54a2f6a77f21", by decide⟩
  accountId := ⟨"a7d2f5c0-1f8a-4b55-8a53-6f6f2f0f7b11", by decide⟩

def peer : CanonicalAddress := ⟨"+380671112233", some "+380671112233", some "067 111 22 33"⟩

/-- One Signal envelope. -/
def envelope : CanonicalInbound where
  direction := none
  externalId := "1793188799123"
  fromAddress := peer
  toAddresses := []
  type := "text"
  content := ⟨some "Доброго дня", [], []⟩
  receivedAt := some 1793188799123
  rawPayload := .null

/-- The thread with this peer is already open and has no messages yet. -/
def tables : Database where
  messages := []
  conversations := [⟨⟨"5f1e8a5e-2a0d-4b7e-8f66-0c5a5d1b7e10", by decide⟩, .signal, endpoint.id,
    some "+380671112233", some "+380671112233", none⟩]
  attachments := []
  store := .empty

def idle : State := ⟨tables, fun _ => none⟩

theorem idle_init : (system Database.ExternalIdsUnique).init idle :=
  ⟨fun _ => Nat.zero_le 1, fun _ => rfl⟩

/-- The frame is ingested twice, both copies looking it up before either stores it. -/
def overlapping : List Action :=
  [.call 0 envelope endpoint .signal, .call 1 envelope endpoint .signal,
   .advance 0 supply, .advance 1 second, .advance 0 supply, .advance 1 second,
   .advance 0 supply, .advance 1 second]

/-- Another envelope of the same peer. -/
def later : CanonicalInbound := { envelope with externalId := "1793188799456" }

def third : Supply := { supply with rowId := ⟨"9d2b7c52-6f0a-4a9e-9a43-5f7d1c3e7a05", by decide⟩ }

/-- Two handlers of one frame in turn, a later frame in between, and the first one redelivered
when it is all over. -/
def inTurn : List Action :=
  [.call 0 envelope endpoint .signal, .call 1 envelope endpoint .signal, .call 2 later endpoint .signal,
   .advance 0 supply, .advance 2 third, .advance 0 supply, .advance 2 third, .advance 0 supply,
   .advance 1 second, .advance 2 third, .advance 0 supply, .advance 0 supply, .advance 2 third,
   .call 3 envelope endpoint .signal, .advance 3 second]

end Sample

/-- A frame read twice by two handlers that are not awaiting each other is stored twice. -/
theorem external_ids_duplicated :
    ¬ ∀ s, (system Database.ExternalIdsUnique).Reachable s → s.db.ExternalIdsUnique := by
  intro h
  have hrun : ((system Database.ExternalIdsUnique).replay Sample.idle Sample.overlapping).map
      (fun t => (t.db.rowsWith (Sample.endpoint.id, "1793188799123")).length) = some 2 := by
    decide
  obtain ⟨t, ht, hrows⟩ := Option.map_eq_some_iff.mp hrun
  have := h t (System.Reachable.of_replay Sample.idle_init ht) (Sample.endpoint.id, "1793188799123")
  omega

theorem external_ids_unique_inTurn :
    ∃ t, (system Database.ExternalIdsUnique).replay Sample.idle Sample.inTurn = some t ∧
      t.db.messages.length = 2 ∧ (t.db.rowsWith (Sample.endpoint.id, "1793188799123")).length = 1 ∧
      t.db.ExternalIdsUnique := by
  have hrun : ((system Database.ExternalIdsUnique).replay Sample.idle Sample.inTurn).map (fun t =>
      (t.db.messages.length, (t.db.rowsWith (Sample.endpoint.id, "1793188799123")).length)) = some (2, 1) := by
    decide
  have hbelow : (system Database.ExternalIdsUnique).Obeys (ExclusiveBelow 4) Sample.idle Sample.inTurn := by
    decide
  have hobey := obeys_below 4 (fun _ _ => rfl) (by decide) (fun _ _ => exclusive_of_below) hbelow
  obtain ⟨t, ht, hlengths⟩ := Option.map_eq_some_iff.mp hrun
  obtain ⟨hmessages, hrows⟩ := Prod.mk.inj hlengths
  exact ⟨t, ht, hmessages, hrows, external_ids_unique_of_exclusive (.replay (.init Sample.idle_init) hobey ht)⟩

end MessagingGateway.Inbound
