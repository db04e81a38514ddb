import MessagingGateway.Data.Identifier
import MessagingGateway.Data.Json
import MessagingGateway.Transition.System

/-! The alerts table and its writers: `raise` in the worker and in the API, and `resolve`.
Each looks a row up and writes in a step of its own, without a transaction around the two. -/
namespace MessagingGateway.Alerts
open Transition

inductive AlertStatus where
  | firing | resolved
  deriving DecidableEq

/-- A row of `alerts`. No constraint of the table speaks of fingerprints. -/
structure Alert where
  id : Uuid
  fingerprint : String
  ruleKey : String
  severity : String
  status : AlertStatus
  title : String
  message : String
  payloadJson : Json
  firstSeenAt : ℕ
  lastSeenAt : ℕ
  resolvedAt : Option ℕ

/-- `RaiseAlertParams` and `RaiseAlertInput`; a payload that is null or undefined is none. -/
structure RaiseAlertParams where
  fingerprint : String
  ruleKey : String
  severity : String
  title : String
  message : String
  payload : Option Json

inductive Service where
  | worker | api
  deriving DecidableEq

/-- What `raise` awaits next. -/
inductive RaisePhase where
  | findFirst
  | create
  | update (existing : Alert)
  | returned

structure RaiseCall where
  service : Service
  params : RaiseAlertParams
  phase : RaisePhase

inductive ResolvePhase where
  | findUnique
  | update
  | returned
  | notFound

structure ResolveCall where
  id : Uuid
  phase : ResolvePhase

structure State where
  alerts : List Alert
  raises : ℕ → Option RaiseCall
  resolves : ℕ → Option ResolveCall

/-- A call begins, its next await comes through, or it fails there. -/
inductive Action where
  | raise (i : ℕ) (service : Service) (params : RaiseAlertParams)
  | raiseNext (i : ℕ) (rowId : Uuid) (now : ℕ)
  | raiseFails (i : ℕ)
  | resolve (j : ℕ) (id : Uuid)
  | resolveNext (j : ℕ) (now : ℕ)
  | resolveFails (j : ℕ)

/-- `where: { fingerprint, status: 'firing' }`. -/
def isFiring (fingerprint : String) (alert : Alert) : Bool :=
  alert.fingerprint = fingerprint ∧ alert.status = .firing

def firing (alerts : List Alert) (fingerprint : String) : List Alert := alerts.filter (isFiring fingerprint)

/-- `alert.update({ where: { id } })`. -/
def updateById (alerts : List Alert) (id : Uuid) (data : Alert → Alert) : List Alert :=
  alerts.map fun alert => if alert.id = id then data alert else alert

namespace RaiseCall
variable (call : RaiseCall)

def row (rowId : Uuid) (now : ℕ) : Alert where
  id := rowId
  fingerprint := call.params.fingerprint
  ruleKey := call.params.ruleKey
  severity := call.params.severity
  status := .firing
  title := call.params.title
  message := call.params.message
  payloadJson := call.params.payload.getD (.obj [])
  firstSeenAt := now
  lastSeenAt := now
  resolvedAt := none

/-- The worker refreshes time and payload, the API the message too. -/
def refreshed (existing : Alert) (now : ℕ) (alert : Alert) : Alert :=
  match call.service with
  | .worker => { alert with lastSeenAt := now, payloadJson := call.params.payload.getD (.obj []) }
  | .api => { alert with
      lastSeenAt := now
      message := call.params.message
      payloadJson := call.params.payload.getD existing.payloadJson }

def next (alerts : List Alert) (rowId : Uuid) (now : ℕ) : Option (List Alert × RaisePhase) :=
  match call.phase with
  | .findFirst => match alerts.find? (isFiring call.params.fingerprint) with
    | some existing => some (alerts, .update existing)
    | none => some (alerts, .create)
  | .create => some (alerts ++ [call.row rowId now], .returned)
  | .update existing => some (updateById alerts existing.id (call.refreshed existing now), .returned)
  | .returned => none

end RaiseCall

def ResolveCall.next (call : ResolveCall) (alerts : List Alert) (now : ℕ) : Option (List Alert × ResolvePhase) :=
  match call.phase with
  | .findUnique => match alerts.find? fun alert => alert.id = call.id with
    | none => some (alerts, .notFound)
    | some alert => some (alerts, if alert.status = .resolved then .returned else .update)
  | .update => some (updateById alerts call.id fun alert => { alert with status := .resolved, resolvedAt := some now },
      .returned)
  | .returned | .notFound => none

def step (s : State) : Action → Option State
  | .raise i service params =>
    if (s.raises i).isNone then
      some { s with raises := Function.update s.raises i (some ⟨service, params, .findFirst⟩) }
    else none
  | .raiseNext i rowId now => (s.raises i).bind fun call => (call.next s.alerts rowId now).map fun (alerts, phase) =>
      { s with alerts := alerts, raises := Function.update s.raises i (some { call with phase := phase }) }
  | .raiseFails i => some { s with raises := Function.update s.raises i none }
  | .resolve j id =>
    if (s.resolves j).isNone then
      some { s with resolves := Function.update s.resolves j (some ⟨id, .findUnique⟩) }
    else none
  | .resolveNext j now => (s.resolves j).bind fun call => (call.next s.alerts now).map fun (alerts, phase) =>
      { s with alerts := alerts, resolves := Function.update s.resolves j (some { call with phase := phase }) }
  | .resolveFails j => some { s with resolves := Function.update s.resolves j none }

/-- At most one alert per fingerprint is firing. -/
def Unique (s : State) : Prop := ∀ fingerprint, (firing s.alerts fingerprint).length ≤ 1

/-- The one firing alert of the fingerprint says what the raise says. -/
def Shows (s : State) (params : RaiseAlertParams) : Prop :=
  ∃ alert, firing s.alerts params.fingerprint = [alert] ∧ alert.severity = params.severity ∧
    alert.title = params.title ∧ alert.message = params.message

/-- No other raise of the fingerprint is in progress. -/
def Alone (s : State) (i : ℕ) (fingerprint : String) : Prop :=
  ∀ j call, j ≠ i → s.raises j = some call → call.params.fingerprint = fingerprint → call.phase = .returned

/-- The raise comes through with the step. -/
def Completes (s t : State) (i : ℕ) (call : RaiseCall) : Prop :=
  s.raises i = some call ∧ call.phase ≠ .returned ∧ t.raises i = some { call with phase := .returned }

/-- After the step a fingerprint has one live incident, and the raise that has just come through
alone is the one that shows. -/
structure Live (s t : State) : Prop where
  unique : Unique t
  shown : ∀ i call, Completes s t i call → Alone t i call.params.fingerprint → Shows t call.params

def system : System State Action where
  init s := Unique s ∧ (∀ i, s.raises i = none) ∧ ∀ j, s.resolves j = none
  step := step

/-- A raise that creates finds no firing alert, and one that refreshes alone finds one that
says already what it does not write. -/
def Consistent (s : State) : Action → Prop
  | .raiseNext i _ _ => ∀ call, s.raises i = some call → match call.phase with
    | .create => firing s.alerts call.params.fingerprint = []
    | .update existing => Alone s i call.params.fingerprint →
      ∃ alert, firing s.alerts call.params.fingerprint = [alert] ∧ alert.severity = call.params.severity ∧
        alert.title = call.params.title ∧
        (alert.message = call.params.message ∨ (call.service = .api ∧ alert.id = existing.id))
    | _ => True
  | _ => True

section
variable {alerts : List Alert} {fingerprint : String}

private theorem firing_append (alert : Alert) : firing (alerts ++ [alert]) fingerprint =
    firing alerts fingerprint ++ if isFiring fingerprint alert then [alert] else [] := by
  rw [firing, List.filter_append, List.filter_cons, List.filter_nil]
  rfl

/-- An update that touches neither the fingerprint nor the status. -/
theorem firing_updateById {id : Uuid} {data : Alert → Alert}
    (hdata : ∀ alert, (data alert).fingerprint = alert.fingerprint ∧ (data alert).status = alert.status) :
    firing (updateById alerts id data) fingerprint = updateById (firing alerts fingerprint) id data := by
  have hkept : ∀ alert, isFiring fingerprint (if alert.id = id then data alert else alert) =
    isFiring fingerprint alert := by
    intro alert
    split
    · rw [isFiring, isFiring, (hdata alert).1, (hdata alert).2]
    · rfl
  rw [firing, updateById, List.filter_map, firing, updateById]
  congr 2
  funext alert
  exact hkept alert

private theorem firing_resolved_length (id : Uuid) (now : ℕ) :
    (firing (updateById alerts id fun alert => { alert with status := .resolved, resolvedAt := some now })
      fingerprint).length ≤ (firing alerts fingerprint).length := by
  rw [firing, firing, updateById, ← List.countP_eq_length_filter, ← List.countP_eq_length_filter, List.countP_map]
  apply List.countP_mono_left
  intro alert _ hnew
  by_cases hid : alert.id = id
  · simp [isFiring, hid] at hnew
  · simpa [hid] using hnew

private theorem refreshed_kept (call : RaiseCall) (existing : Alert) (now : ℕ) (alert : Alert) :
    (call.refreshed existing now alert).fingerprint = alert.fingerprint ∧
      (call.refreshed existing now alert).status = alert.status ∧
      (call.refreshed existing now alert).severity = alert.severity ∧
      (call.refreshed existing now alert).title = alert.title := by
  unfold RaiseCall.refreshed
  split <;> exact ⟨rfl, rfl, rfl, rfl⟩

private theorem isFiring_row (call : RaiseCall) (rowId : Uuid) (now : ℕ) :
    isFiring fingerprint (call.row rowId now) = decide (call.params.fingerprint = fingerprint) := by
  simp [isFiring, RaiseCall.row]

end

/-- A raise that is not the step's own does not come through with it. -/
private theorem completes_caller {s t : State} {i c : ℕ} {call : RaiseCall} {entry : Option RaiseCall}
    (hraises : t.raises = Function.update s.raises c entry) (h : Completes s t i call) : i = c := by
  by_contra hne
  obtain ⟨hs, hphase, ht⟩ := h
  rw [hraises, Function.update_of_ne hne, hs] at ht
  exact hphase (congrArg RaiseCall.phase (Option.some.inj ht))

private theorem live_of_quiet {s t : State} (hs : Unique s)
    (hfiring : ∀ fingerprint, (firing t.alerts fingerprint).length ≤ (firing s.alerts fingerprint).length)
    (hnone : ∀ i call, ¬ Completes s t i call) : Live s t :=
  ⟨fun fingerprint => (hfiring fingerprint).trans (hs fingerprint), fun i call h => absurd h (hnone i call)⟩

/-- The ways an await of a raise goes. -/
inductive RaiseCase (s : State) (call : RaiseCall) (rowId : Uuid) (now : ℕ) : List Alert → RaisePhase → Prop
  | looked (phase : RaisePhase) : call.phase = .findFirst → phase ≠ .returned →
    RaiseCase s call rowId now s.alerts phase
  | created : call.phase = .create → RaiseCase s call rowId now (s.alerts ++ [call.row rowId now]) .returned
  | refreshed (existing : Alert) : call.phase = .update existing →
      RaiseCase s call rowId now (updateById s.alerts existing.id (call.refreshed existing now)) .returned

private theorem next_cases {s : State} {call : RaiseCall} {rowId : Uuid} {now : ℕ} {alerts : List Alert}
    {phase : RaisePhase} (h : call.next s.alerts rowId now = some (alerts, phase)) :
    RaiseCase s call rowId now alerts phase := by
  unfold RaiseCall.next at h
  cases hphase : call.phase with
  | findFirst =>
    simp only [hphase] at h
    split at h <;> cases h
    all_goals exact .looked _ hphase nofun
  | create =>
    simp only [hphase] at h
    cases h
    exact .created hphase
  | update existing =>
    simp only [hphase] at h
    cases h
    exact .refreshed existing hphase
  | returned => simp [hphase] at h

/-- What the found incident shows after the refresh, and from what before it. -/
private theorem shows_refreshed_iff {s t : State} {call : RaiseCall} {existing : Alert} {now : ℕ}
    (ht : t.alerts = updateById s.alerts existing.id (call.refreshed existing now)) :
    Shows t call.params ↔ ∃ alert, firing s.alerts call.params.fingerprint = [alert] ∧
      alert.severity = call.params.severity ∧ alert.title = call.params.title ∧
      (alert.message = call.params.message ∨ (call.service = .api ∧ alert.id = existing.id)) := by
  have hkept : ∀ alert, (call.refreshed existing now alert).fingerprint = alert.fingerprint ∧
      (call.refreshed existing now alert).status = alert.status :=
    fun alert => ⟨(refreshed_kept call existing now alert).1, (refreshed_kept call existing now alert).2.1⟩
  have hshown : ∀ alert, (if alert.id = existing.id then call.refreshed existing now alert else alert).severity =
        alert.severity ∧
      (if alert.id = existing.id then call.refreshed existing now alert else alert).title = alert.title ∧
      ((if alert.id = existing.id then call.refreshed existing now alert else alert).message = call.params.message ↔
        alert.message = call.params.message ∨ (call.service = .api ∧ alert.id = existing.id)) := by
    intro alert
    by_cases hid : alert.id = existing.id
    · obtain ⟨_, _, hseverity, htitle⟩ := refreshed_kept call existing now alert
      rw [if_pos hid]
      refine ⟨hseverity, htitle, ?_⟩
      cases hservice : call.service <;> simp [RaiseCall.refreshed, hservice, hid]
    · simp [hid]
  rw [Shows, ht, firing_updateById hkept, updateById]
  constructor
  · rintro ⟨shown, hfiring, hseverity, htitle, hmessage⟩
    obtain ⟨alert, hone, rfl⟩ := List.map_eq_singleton_iff.mp hfiring
    obtain ⟨hs, ht, hm⟩ := hshown alert
    exact ⟨alert, hone, hs ▸ hseverity, ht ▸ htitle, hm.mp hmessage⟩
  · rintro ⟨alert, hone, hseverity, htitle, hmessage⟩
    obtain ⟨hs, ht, hm⟩ := hshown alert
    refine ⟨_, by rw [hone, List.map_singleton], hs.trans hseverity, ht.trans htitle, hm.mpr hmessage⟩

private theorem updateById_length (alerts : List Alert) (id : Uuid) (data : Alert → Alert) :
    (updateById alerts id data).length = alerts.length := List.length_map _

private theorem raise_live_iff {s t : State} {i : ℕ} {call : RaiseCall} {rowId : Uuid} {now : ℕ} {alerts : List Alert}
    {phase : RaisePhase} (hs : Unique s) (hcall : s.raises i = some call)
    (hcase : RaiseCase s call rowId now alerts phase)
    (ht : t = { s with alerts := alerts, raises := Function.update s.raises i (some { call with phase := phase }) }) :
    Live s t ↔ Consistent s (.raiseNext i rowId now) := by
  have hraises : t.raises = Function.update s.raises i (some { call with phase := phase }) := by rw [ht]
  have halerts : t.alerts = alerts := by rw [ht]
  have hown : ∀ j own, Completes s t j own → j = i ∧ own = call := by
    intro j own h
    obtain rfl := completes_caller hraises h
    exact ⟨rfl, Option.some.inj (h.1.symm.trans hcall)⟩
  have hconsistent : Consistent s (.raiseNext i rowId now) ↔ match call.phase with
      | .create => firing s.alerts call.params.fingerprint = []
      | .update existing => Alone s i call.params.fingerprint →
        ∃ alert, firing s.alerts call.params.fingerprint = [alert] ∧ alert.severity = call.params.severity ∧
          alert.title = call.params.title ∧
          (alert.message = call.params.message ∨ (call.service = .api ∧ alert.id = existing.id))
      | _ => True :=
    ⟨fun h => h call hcall, fun h own hsame => Option.some.inj (hcall.symm.trans hsame) ▸ h⟩
  have halone : Alone t i call.params.fingerprint ↔ Alone s i call.params.fingerprint := by
    have hothers : ∀ j, j ≠ i → t.raises j = s.raises j := fun j hne => by rw [hraises, Function.update_of_ne hne]
    constructor
    · intro h j own hne hj
      exact h j own hne ((hothers j hne).trans hj)
    · intro h j own hne hj
      exact h j own hne ((hothers j hne).symm.trans hj)
  rw [hconsistent]
  cases hcase with
  | looked _ hphase hgoes =>
    refine iff_of_true (live_of_quiet hs (fun _ => by rw [halerts]) ?_) (by rw [hphase]; trivial)
    intro j own h
    obtain ⟨rfl, rfl⟩ := hown j own h
    have hafter := h.2.2
    rw [hraises, Function.update_self] at hafter
    exact hgoes (congrArg RaiseCall.phase (Option.some.inj hafter))
  | created hphase =>
    have hfiring : ∀ fingerprint, firing t.alerts fingerprint =
        firing s.alerts fingerprint ++ if call.params.fingerprint = fingerprint then [call.row rowId now] else [] := by
      intro fingerprint
      rw [halerts, firing_append, isFiring_row]
      simp
    simp only [hphase]
    constructor
    · intro h
      have hlength := h.unique call.params.fingerprint
      rw [hfiring, if_pos rfl, List.length_append, List.length_singleton] at hlength
      exact List.length_eq_zero_iff.mp (by omega)
    · intro hnone
      constructor
      · intro fingerprint
        rw [hfiring]
        split
        · rename_i hsame
          rw [← hsame, hnone]
          exact le_rfl
        · rw [List.append_nil]
          exact hs fingerprint
      · intro j own h _
        obtain ⟨rfl, rfl⟩ := hown j own h
        refine ⟨own.row rowId now, ?_, rfl, rfl, rfl⟩
        rw [hfiring, hnone, if_pos rfl, List.nil_append]
  | refreshed existing hphase =>
    have hcompletes : Completes s t i call := by
      refine ⟨hcall, by simp [hphase], ?_⟩
      rw [hraises, Function.update_self]
    have hkept : ∀ alert, (call.refreshed existing now alert).fingerprint = alert.fingerprint ∧
        (call.refreshed existing now alert).status = alert.status :=
      fun alert => ⟨(refreshed_kept call existing now alert).1, (refreshed_kept call existing now alert).2.1⟩
    simp only [hphase]
    rw [← shows_refreshed_iff halerts]
    constructor
    · intro h hnobody
      exact h.shown i call hcompletes (halone.mpr hnobody)
    · intro h
      constructor
      · intro fingerprint
        rw [halerts, firing_updateById hkept, updateById_length]
        exact hs fingerprint
      · intro j own hdone hnobody
        obtain ⟨rfl, rfl⟩ := hown j own hdone
        exact h (halone.mp hnobody)

private theorem step_live_iff {s t : State} {a : Action} (hs : Unique s) (h : step s a = some t) :
    Live s t ↔ Consistent s a := by
  cases a with
  | raise i service params =>
    obtain ⟨hfree, h⟩ := Option.ite_none_right_eq_some.mp h
    obtain rfl := Option.some.inj h
    refine iff_of_true (live_of_quiet hs (fun _ => le_rfl) ?_) trivial
    intro j own hdone
    obtain rfl := completes_caller rfl hdone
    rw [hdone.1] at hfree
    exact absurd hfree (by simp)
  | raiseNext i rowId now =>
    obtain ⟨call, hcall, h⟩ := Option.bind_eq_some_iff.mp h
    obtain ⟨⟨alerts, phase⟩, hnext, ht⟩ := Option.map_eq_some_iff.mp h
    exact raise_live_iff hs hcall (next_cases hnext) ht.symm
  | raiseFails i =>
    obtain rfl := Option.some.inj h
    refine iff_of_true (live_of_quiet hs (fun _ => le_rfl) ?_) trivial
    intro j own hdone
    obtain rfl := completes_caller rfl hdone
    have hafter : Function.update s.raises _ none _ = _ := hdone.2.2
    rw [Function.update_self] at hafter
    exact absurd hafter (by simp)
  | resolve j id =>
    obtain ⟨_, h⟩ := Option.ite_none_right_eq_some.mp h
    obtain rfl := Option.some.inj h
    refine iff_of_true (live_of_quiet hs (fun _ => le_rfl) ?_) trivial
    rintro i own ⟨hs, hphase, ht⟩
    exact hphase (congrArg RaiseCall.phase (Option.some.inj (hs.symm.trans ht)))
  | resolveNext j now =>
    obtain ⟨call, _, h⟩ := Option.bind_eq_some_iff.mp h
    obtain ⟨⟨alerts, phase⟩, hnext, rfl⟩ := Option.map_eq_some_iff.mp h
    refine iff_of_true (live_of_quiet hs ?_ ?_) trivial
    · intro fingerprint
      unfold ResolveCall.next at hnext
      split at hnext
      · split at hnext <;> cases hnext
        all_goals exact le_rfl
      · cases hnext
        exact firing_resolved_length call.id now
      · cases hnext
      · cases hnext
    · rintro i own ⟨hs, hphase, ht⟩
      exact hphase (congrArg RaiseCall.phase (Option.some.inj (hs.symm.trans ht)))
  | resolveFails j =>
    obtain rfl := Option.some.inj h
    refine iff_of_true (live_of_quiet hs (fun _ => le_rfl) ?_) trivial
    rintro i own ⟨hs, hphase, ht⟩
    exact hphase (congrArg RaiseCall.phase (Option.some.inj (hs.symm.trans ht)))

/-- One live incident per fingerprint, and the last raise is the one that shows, in exactly the
runs in which every write of a raise finds the table consistent with it. -/
theorem live_iff_consistent {s : State} (h : system.init s) (as : List Action) :
    system.Steps Live s as ↔ system.Obeys Consistent s as := by
  apply System.steps_iff_obeys (I := Unique) _ _ h.1 as
  · intro s a t hs hconsistent hstep
    have hlive := (step_live_iff hs hstep).mpr hconsistent
    exact ⟨hlive.unique, hlive⟩
  · intro s a t hs hinconsistent hstep hlive
    exact hinconsistent ((step_live_iff hs hstep).mp hlive)

namespace Sample

def low : RaiseAlertParams where
  fingerprint := "sms.balance.low:9b7d2c10"
  ruleKey := "sms.balance.low"
  severity := "warning"
  title := "Низький баланс SIM +380671112233"
  message := "12 грн (поріг 50). Відповідь оператора: Na rahunku 12 grn."
  payload := none

/-- The same SIM a day later. -/
def debt : RaiseAlertParams :=
  { low with
    severity := "critical"
    title := "Заборгованість на SIM +380671112233"
    message := "-3 грн (поріг 50). Відповідь оператора: Borg 3 grn." }

def rowId : Uuid := ⟨"5e0b7c52-6f0a-4a9e-9a43-5f7d1c3e8b01", by decide⟩

def raised (params : RaiseAlertParams) : List Action :=
  [.raise 0 .worker params, .raiseNext 0 rowId 1793188800000, .raiseNext 0 rowId 1793188800000]

def empty : State := ⟨[], fun _ => none, fun _ => none⟩

/-- The row of the first incident. -/
def lowAlert : Alert := RaiseCall.row ⟨.worker, low, .create⟩ rowId 1793102400000

def warned : State := ⟨[lowAlert], fun _ => none, fun _ => none⟩

theorem empty_init : system.init empty := ⟨fun _ => Nat.zero_le 1, fun _ => rfl, fun _ => rfl⟩

private theorem warned_init : system.init warned := by
  refine ⟨?_, fun _ => rfl, fun _ => rfl⟩
  intro fingerprint
  exact List.length_filter_le _ _

end Sample

theorem first_raise_live : system.Steps Live Sample.empty (Sample.raised Sample.low) :=
  (live_iff_consistent Sample.empty_init _).mpr
    ⟨trivial, by rintro call ⟨⟩; trivial, by rintro call ⟨⟩; rfl, trivial⟩

/-- The SIM that goes into debt is still shown as low. -/
theorem debt_not_shown : ¬ ∀ s, system.init s → ∀ as : List Action, system.Steps Live s as := by
  intro h
  have hsteps : system.Steps Live Sample.warned (Sample.raised Sample.debt) := h _ Sample.warned_init _
  have hlive : Live _ _ := hsteps.2.2.1
  have hshows := hlive.shown 0 ⟨.worker, Sample.debt, .update Sample.lowAlert⟩ ⟨rfl, nofun, rfl⟩ (by
    intro j call hne hcall
    have hafter : (Function.update (Function.update (Function.update (fun _ => none) 0 _) 0 _) 0 _ :
        ℕ → Option RaiseCall) j = some call := hcall
    rw [Function.update_of_ne hne, Function.update_of_ne hne, Function.update_of_ne hne] at hafter
    exact absurd hafter (by simp))
  obtain ⟨alert, hfiring, hseverity, _⟩ := hshows
  have hshown : alert.severity = "warning" := by
    have hmap := congrArg (List.map (·.severity)) hfiring
    exact (List.cons.inj hmap).1.symm
  rw [hshown] at hseverity
  exact absurd hseverity (by decide)

end MessagingGateway.Alerts
