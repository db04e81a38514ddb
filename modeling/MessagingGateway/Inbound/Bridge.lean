import MessagingGateway.Adapters.Send
import MessagingGateway.Provisioning.Wizard
import MessagingGateway.Transition.System

/-! `SignalReceiveBridge`: one websocket for every linked number, kept by passes that read the
tables at their own pace while sockets come and go. -/
namespace MessagingGateway.Inbound.Bridge
open Js Transition Provisioning
variable {ι : Type*}

def signalAdapter : String := "signal-cli-rest-api"

structure TransportAccount where
  id : String
  adapter : String
  baseUrl : Option String
  deriving DecidableEq, Repr

/-- A row: its key is never empty. -/
structure Endpoint where
  id : String
  key : id ≠ ""
  accountId : String
  phoneE164 : Option String
  externalId : Option String
  registrationState : RegistrationState
  enabled : Bool

inductive Link where
  | open
  | closing
  | closed
  deriving DecidableEq, Repr

structure Conn where
  phone : String
  url : String
  link : Link
  deriving DecidableEq, Repr

/-- Where a pass of `reconcile` waits. -/
inductive Pass where
  | started
  | account (account : TransportAccount)
  | rows (account : TransportAccount) (rows : List Endpoint)

/-- `conns` numbers the sockets in the order they were made; `read` and `ingested` remember the
rows that passes have read and the frames handed on. -/
structure State (ι : Type*) where
  accounts : List TransportAccount
  endpoints : List Endpoint
  sockets : String → Option ℕ
  endpointIds : String → Option String
  stopping : Bool
  passes : ι → Option Pass
  conns : ℕ → Option Conn
  next : ℕ
  read : List Endpoint
  ingested : List (String × String)

inductive Action (ι : Type*) where
  | change (accounts : List TransportAccount) (endpoints : List Endpoint)
  | start (i : ι)
  | readAccount (i : ι)
  | readRows (i : ι)
  | apply (i : ι)
  | fail (i : ι)
  | destroy
  | closed (w : ℕ)
  | message (w : ℕ) (text : String)

/-- What the environment and the platform decide: the default address, which addresses the
websocket constructor takes, and `JSON.parse`. -/
structure Platform where
  baseUrl : Option String
  accepts : String → Bool
  parse : String → Option Json

/-- `ep.phoneE164 ?? ep.externalId`, unless it is empty. -/
def Endpoint.number (ep : Endpoint) : Option String := truthy (ep.phoneE164 <|> ep.externalId)

def wanted (rows : List Endpoint) : List String := rows.filterMap Endpoint.number

def findAccount (accounts : List TransportAccount) : Option TransportAccount :=
  accounts.find? (·.adapter = signalAdapter)

def findRows (account : TransportAccount) (endpoints : List Endpoint) : List Endpoint :=
  endpoints.filter fun ep => ep.accountId = account.id ∧ ep.registrationState = .linked ∧ ep.enabled

def Platform.base (p : Platform) (account : TransportAccount) : String :=
  (account.baseUrl <|> p.baseUrl).getD "http://signal-cli:8080"

/-- `replace(/^http/, 'ws')` -/
def toWs : List Char → List Char
  | 'h' :: 't' :: 't' :: 'p' :: rest => 'w' :: 's' :: rest
  | text => text

/-- `replace(/\/$/, '')` -/
def withoutSlash (text : List Char) : List Char := if text.getLast? = some '/' then text.dropLast else text

def wsUrl (base phone : String) : String :=
  String.ofList (withoutSlash (toWs base.toList)) ++ "/v1/receive/" ++ Adapters.encodeURIComponent phone

section
variable (p : Platform)

def openSocket (base phone : String) (s : State ι) : State ι :=
  if p.accepts (wsUrl base phone) then { s with
    sockets := Function.update s.sockets phone (some s.next)
    conns := Function.update s.conns s.next (some ⟨phone, wsUrl base phone, .open⟩)
    next := s.next + 1 }
  else s

/-- One endpoint of the first loop. -/
def visit (base : String) (s : State ι) (ep : Endpoint) : State ι :=
  match ep.number with
  | none => s
  | some phone =>
    let s := { s with endpointIds := Function.update s.endpointIds phone (some ep.id) }
    if s.sockets phone = none then openSocket p base phone s else s

def Conn.shut (c : Conn) : Conn := if c.link = .open then { c with link := .closing } else c

/-- `ws.close()` on the sockets of the map that the test picks, which also leave the map. -/
def drop (test : String → Bool) (s : State ι) : State ι := { s with
  sockets := fun phone => if test phone then none else s.sockets phone
  conns := fun w => (s.conns w).map fun c => if s.sockets c.phone = some w ∧ test c.phone then c.shut else c }

/-- The synchronous rest of a pass. -/
def applyRows (base : String) (rows : List Endpoint) (s : State ι) : State ι :=
  drop (fun phone => phone ∉ wanted rows) (rows.foldl (visit p base) s)

inductive Outcome where
  | blank
  | notJson
  | noEndpoint
  | ingest (endpointId : String) (payload : Json)

def handleFrame (s : State ι) (phone text : String) : Outcome :=
  if trim text.toList = [] then .blank
  else match p.parse text with
    | none => .notJson
    | some payload => match truthy (s.endpointIds phone) with
      | none => .noEndpoint
      | some endpointId => .ingest endpointId payload

def receive (s : State ι) (c : Conn) (text : String) : State ι :=
  match handleFrame p s c.phone text with
  | .ingest endpointId _ => { s with ingested := (endpointId, c.phone) :: s.ingested }
  | _ => s

def closed (s : State ι) (w : ℕ) (c : Conn) : State ι := { s with
  sockets := if s.sockets c.phone = some w then Function.update s.sockets c.phone none else s.sockets
  conns := Function.update s.conns w (some { c with link := .closed }) }

variable [DecidableEq ι]

def step (s : State ι) : Action ι → Option (State ι)
  | .change accounts endpoints => some { s with accounts, endpoints }
  | .start i =>
    if s.stopping then none
    else match s.passes i with
      | none => some { s with passes := Function.update s.passes i (some .started) }
      | some _ => none
  | .readAccount i => match s.passes i with
    | some .started => some { s with passes := Function.update s.passes i ((findAccount s.accounts).map .account) }
    | _ => none
  | .readRows i => match s.passes i with
    | some (.account account) =>
      let rows := findRows account s.endpoints
      some { s with passes := Function.update s.passes i (some (.rows account rows)), read := rows ++ s.read }
    | _ => none
  | .apply i => match s.passes i with
    | some (.rows account rows) =>
      some (applyRows p (p.base account) rows { s with passes := Function.update s.passes i none })
    | _ => none
  | .fail i => some { s with passes := Function.update s.passes i none }
  | .destroy => some { drop (fun _ => true) s with stopping := true }
  | .closed w => match s.conns w with
    | some c => if c.link = .closed then none else some (closed s w c)
    | none => none
  | .message w text => match s.conns w with
    | some c => if c.link = .closed then none else some (receive p s c text)
    | none => none

def system : System (State ι) (Action ι) where
  init s := (∀ phone, s.sockets phone = none) ∧ (∀ phone, s.endpointIds phone = none) ∧ s.stopping = false ∧
    (∀ i, s.passes i = none) ∧ (∀ w, s.conns w = none) ∧ s.read = [] ∧ s.ingested = []
  step := step p

end

/-- The map and the open sockets are the same thing, and every socket's number has an endpoint. -/
structure Sockets (s : State ι) : Prop where
  listed : ∀ phone w, s.sockets phone = some w → ∃ url, s.conns w = some ⟨phone, url, .open⟩
  single : ∀ w c, s.conns w = some c → c.link = .open → s.sockets c.phone = some w
  fresh : ∀ w, s.next ≤ w → s.conns w = none
  known : ∀ w c, s.conns w = some c → (s.endpointIds c.phone).isSome

/-- Every cached id is that of a linked and enabled row with this number. -/
structure Rows (s : State ι) : Prop where
  read : ∀ ep ∈ s.read, ep.registrationState = .linked ∧ ep.enabled
  cached : ∀ phone id, s.endpointIds phone = some id → ∃ ep ∈ s.read, ep.id = id ∧ ep.number = some phone
  passes : ∀ i account rows, s.passes i = some (.rows account rows) → ∀ ep ∈ rows, ep ∈ s.read
  frames : ∀ f ∈ s.ingested, ∃ ep ∈ s.read, ep.id = f.1 ∧ ep.number = some f.2

variable {p : Platform} {s t : State ι}

private theorem shut_phone (c : Conn) : c.shut.phone = c.phone := by
  rw [Conn.shut]
  split <;> rfl

private theorem shut_not_open (c : Conn) : c.shut.link ≠ .open := by
  rw [Conn.shut]
  split
  · simp
  · assumption

private theorem sockets_open (h : Sockets s) {base phone : String} (hfree : s.sockets phone = none)
    (hknown : (s.endpointIds phone).isSome) : Sockets (openSocket p base phone s) := by
  rw [openSocket]
  split
  · have hnew : ∀ {w c}, s.conns w = some c → w ≠ s.next := by
      rintro w c hc rfl
      exact absurd (hc.symm.trans (h.fresh _ le_rfl)) (by simp)
    refine ⟨fun phone' w hw => ?_, fun w c hc hopen => ?_, fun w hw => ?_, fun w c hc => ?_⟩
    · rcases eq_or_ne phone' phone with rfl | hne
      · obtain rfl : s.next = w := by simpa using hw
        exact ⟨_, Function.update_self _ _ _⟩
      · obtain ⟨url, hurl⟩ := h.listed phone' w ((Function.update_of_ne hne _ _).symm.trans hw)
        exact ⟨url, (Function.update_of_ne (hnew hurl) _ _).trans hurl⟩
    · rcases eq_or_ne w s.next with rfl | hne
      · obtain rfl : ⟨phone, wsUrl base phone, .open⟩ = c := by simpa using hc
        exact Function.update_self _ _ _
      · have hold := h.single w c ((Function.update_of_ne hne _ _).symm.trans hc) hopen
        have hphone : c.phone ≠ phone := by
          rintro rfl
          exact absurd (hfree.symm.trans hold) (by simp)
        exact (Function.update_of_ne hphone _ _).trans hold
    · dsimp only at hw
      exact (Function.update_of_ne (by omega) _ _).trans (h.fresh w (by omega))
    · rcases eq_or_ne w s.next with rfl | hne
      · obtain rfl : ⟨phone, wsUrl base phone, .open⟩ = c := by simpa using hc
        exact hknown
      · exact h.known w c ((Function.update_of_ne hne _ _).symm.trans hc)
  · exact h

private theorem sockets_cache (h : Sockets s) (phone id : String) :
    Sockets { s with endpointIds := Function.update s.endpointIds phone (some id) } := by
  refine ⟨h.listed, h.single, h.fresh, fun w c hc => ?_⟩
  rcases eq_or_ne c.phone phone with heq | hne
  · simp [heq]
  · dsimp only
    rw [Function.update_of_ne hne]
    exact h.known w c hc

private theorem sockets_visit (h : Sockets s) (base : String) (ep : Endpoint) : Sockets (visit p base s ep) := by
  rw [visit]
  cases hnumber : ep.number with
  | none => exact h
  | some phone =>
    dsimp only
    split
    · rename_i hfree
      exact sockets_open (sockets_cache h phone ep.id) hfree (by simp)
    · exact sockets_cache h phone ep.id

private theorem sockets_drop (h : Sockets s) (test : String → Bool) : Sockets (drop test s) := by
  refine ⟨fun phone w hw => ?_, fun w c hc hopen => ?_, fun w hw => ?_, fun w c hc => ?_⟩
  · obtain ⟨htest, hw⟩ := Option.ite_none_left_eq_some.mp hw
    obtain ⟨url, hurl⟩ := h.listed phone w hw
    refine ⟨url, ?_⟩
    simp [drop, hurl, htest]
  · obtain ⟨old, hold, rfl⟩ := Option.map_eq_some_iff.mp hc
    split at hopen
    · exact absurd hopen (shut_not_open old)
    · rename_i hkeep
      have hsocket := h.single w old hold hopen
      rw [if_neg hkeep, drop]
      dsimp only
      rw [if_neg fun htest => hkeep ⟨hsocket, htest⟩]
      exact hsocket
  · exact Option.map_eq_none_iff.mpr (h.fresh w hw)
  · obtain ⟨old, hold, rfl⟩ := Option.map_eq_some_iff.mp hc
    split
    · rw [shut_phone]
      exact h.known w old hold
    · exact h.known w old hold

private theorem sockets_visits (h : Sockets s) (base : String) (rows : List Endpoint) :
    Sockets (rows.foldl (visit p base) s) := by
  induction rows generalizing s with
  | nil => exact h
  | cons ep rows ih => exact ih (sockets_visit h base ep)

private theorem sockets_closed (h : Sockets s) {w : ℕ} {c : Conn} (hc : s.conns w = some c) :
    Sockets (closed s w c) := by
  -- the map keeps what it had for the other sockets
  have hmap : ∀ phone v, (closed s w c).sockets phone = some v → s.sockets phone = some v ∧ v ≠ w := by
    intro phone v hv
    rw [closed] at hv
    dsimp only at hv
    split at hv
    · rename_i hlisted
      rcases eq_or_ne phone c.phone with rfl | hne
      · exact absurd hv (by simp)
      · rw [Function.update_of_ne hne] at hv
        refine ⟨hv, ?_⟩
        rintro rfl
        obtain ⟨url, hurl⟩ := h.listed phone v hv
        obtain rfl := Option.some.inj (hurl.symm.trans hc)
        exact hne rfl
    · rename_i hlisted
      refine ⟨hv, ?_⟩
      rintro rfl
      obtain ⟨url, hurl⟩ := h.listed phone v hv
      obtain rfl := Option.some.inj (hurl.symm.trans hc)
      exact hlisted hv
  refine ⟨fun phone v hv => ?_, fun v c' hc' hopen => ?_, fun v hv => ?_, fun v c' hc' => ?_⟩
  · obtain ⟨hv, hne⟩ := hmap phone v hv
    obtain ⟨url, hurl⟩ := h.listed phone v hv
    exact ⟨url, (Function.update_of_ne hne _ _).trans hurl⟩
  · rcases eq_or_ne v w with rfl | hne
    · obtain rfl : { c with link := .closed } = c' := by simpa [closed] using hc'
      exact absurd hopen (by simp)
    · have hold := h.single v c' ((Function.update_of_ne hne _ _).symm.trans hc') hopen
      rw [closed]
      dsimp only
      split
      · rename_i hlisted
        have hphone : c'.phone ≠ c.phone := by
          intro heq
          rw [heq] at hold
          exact hne (Option.some.inj (hold.symm.trans hlisted))
        rw [Function.update_of_ne hphone]
        exact hold
      · exact hold
  · have hne : v ≠ w := by
      rintro rfl
      exact absurd ((h.fresh v hv).symm.trans hc) (by simp)
    exact (Function.update_of_ne hne _ _).trans (h.fresh v hv)
  · rcases eq_or_ne v w with rfl | hne
    · obtain rfl : { c with link := .closed } = c' := by simpa [closed] using hc'
      exact h.known v c hc
    · exact h.known v c' ((Function.update_of_ne hne _ _).symm.trans hc')

private theorem rows_open (h : Rows s) (base phone : String) : Rows (openSocket p base phone s) := by
  rw [openSocket]
  split
  · exact ⟨h.read, h.cached, h.passes, h.frames⟩
  · exact h

private theorem rows_visit (h : Rows s) (base : String) {ep : Endpoint} (hep : ep ∈ s.read) :
    Rows (visit p base s ep) := by
  rw [visit]
  cases hnumber : ep.number with
  | none => exact h
  | some phone =>
    have hcached : Rows { s with endpointIds := Function.update s.endpointIds phone (some ep.id) } := by
      refine ⟨h.read, fun phone' id hid => ?_, h.passes, h.frames⟩
      rcases eq_or_ne phone' phone with rfl | hne
      · obtain rfl : ep.id = id := by simpa using hid
        exact ⟨ep, hep, rfl, hnumber⟩
      · exact h.cached phone' id ((Function.update_of_ne hne _ _).symm.trans hid)
    dsimp only
    split
    · exact rows_open hcached base phone
    · exact hcached

/-- Opening sockets changes neither the tables nor what has been read. -/
theorem visit_read (s : State ι) (base : String) (ep : Endpoint) : (visit p base s ep).read = s.read := by
  rw [visit]
  cases ep.number with
  | none => rfl
  | some phone =>
    dsimp only
    split
    · rw [openSocket]
      split <;> rfl
    · rfl

private theorem rows_visits (h : Rows s) (base : String) {rows : List Endpoint} (hrows : ∀ ep ∈ rows, ep ∈ s.read) :
    Rows (rows.foldl (visit p base) s) := by
  induction rows generalizing s with
  | nil => exact h
  | cons ep rows ih =>
    refine ih (rows_visit h base (hrows ep List.mem_cons_self)) fun row hrow => ?_
    rw [visit_read]
    exact hrows row (List.mem_cons_of_mem _ hrow)

private theorem rows_passes [DecidableEq ι] (h : Rows s) {i : ι} {pass : Option Pass}
    (hpass : ∀ account rows, pass = some (.rows account rows) → ∀ ep ∈ rows, ep ∈ s.read) :
    Rows { s with passes := Function.update s.passes i pass } := by
  refine ⟨h.read, h.cached, fun j account rows hj => ?_, h.frames⟩
  rcases eq_or_ne j i with rfl | hne
  · exact hpass account rows (by simpa using hj)
  · exact h.passes j account rows ((Function.update_of_ne hne _ _).symm.trans hj)

variable [DecidableEq ι]

theorem readAccount_inv {i : ι} (h : step p s (.readAccount i) = some t) :
    s.passes i = some .started ∧
      t = { s with passes := Function.update s.passes i ((findAccount s.accounts).map .account) } := by
  rw [step] at h
  cases hpass : s.passes i with
  | none => exact absurd (hpass ▸ h) (by simp)
  | some pass =>
    rw [hpass] at h
    cases pass with
    | started => exact ⟨rfl, (Option.some.inj h).symm⟩
    | account account => exact absurd h (by simp)
    | rows account rows => exact absurd h (by simp)

theorem readRows_inv {i : ι} (h : step p s (.readRows i) = some t) : ∃ account,
    s.passes i = some (.account account) ∧ t = { s with
      passes := Function.update s.passes i (some (.rows account (findRows account s.endpoints)))
      read := findRows account s.endpoints ++ s.read } := by
  rw [step] at h
  cases hpass : s.passes i with
  | none => exact absurd (hpass ▸ h) (by simp)
  | some pass =>
    rw [hpass] at h
    cases pass with
    | started => exact absurd h (by simp)
    | account account => exact ⟨account, rfl, (Option.some.inj h).symm⟩
    | rows account rows => exact absurd h (by simp)

theorem apply_inv {i : ι} (h : step p s (.apply i) = some t) : ∃ account rows,
    s.passes i = some (.rows account rows) ∧
      t = applyRows p (p.base account) rows { s with passes := Function.update s.passes i none } := by
  rw [step] at h
  cases hpass : s.passes i with
  | none => exact absurd (hpass ▸ h) (by simp)
  | some pass =>
    rw [hpass] at h
    cases pass with
    | started => exact absurd h (by simp)
    | account account => exact absurd h (by simp)
    | rows account rows => exact ⟨account, rows, rfl, (Option.some.inj h).symm⟩

theorem start_inv {i : ι} (h : step p s (.start i) = some t) :
    s.stopping = false ∧ t = { s with passes := Function.update s.passes i (some .started) } := by
  obtain ⟨hstop, h⟩ := Option.ite_none_left_eq_some.mp h
  cases hpass : s.passes i with
  | none =>
    rw [hpass] at h
    exact ⟨by simpa using hstop, (Option.some.inj h).symm⟩
  | some pass => exact absurd (hpass ▸ h) (by simp)

theorem closed_inv {w : ℕ} (h : step p s (.closed w) = some t) : ∃ c, s.conns w = some c ∧ t = closed s w c := by
  rw [step] at h
  cases hc : s.conns w with
  | none => exact absurd (hc ▸ h) (by simp)
  | some c =>
    rw [hc] at h
    obtain ⟨-, h⟩ := Option.ite_none_left_eq_some.mp h
    exact ⟨c, rfl, (Option.some.inj h).symm⟩

theorem message_inv {w : ℕ} {text : String} (h : step p s (.message w text) = some t) :
    ∃ c, s.conns w = some c ∧ t = receive p s c text := by
  rw [step] at h
  cases hc : s.conns w with
  | none => exact absurd (hc ▸ h) (by simp)
  | some c =>
    rw [hc] at h
    obtain ⟨-, h⟩ := Option.ite_none_left_eq_some.mp h
    exact ⟨c, rfl, (Option.some.inj h).symm⟩

omit [DecidableEq ι] in
theorem receive_eq (s : State ι) (c : Conn) (text : String) : ∃ ingested, receive p s c text = { s with ingested } ∧
    ∀ f ∈ ingested, f ∈ s.ingested ∨ s.endpointIds c.phone = some f.1 ∧ f.2 = c.phone := by
  rw [receive]
  cases houtcome : handleFrame p s c.phone text with
  | blank => exact ⟨s.ingested, rfl, fun f hf => Or.inl hf⟩
  | notJson => exact ⟨s.ingested, rfl, fun f hf => Or.inl hf⟩
  | noEndpoint => exact ⟨s.ingested, rfl, fun f hf => Or.inl hf⟩
  | ingest endpointId payload =>
    refine ⟨(endpointId, c.phone) :: s.ingested, rfl, fun f hf => ?_⟩
    rcases List.mem_cons.mp hf with rfl | hf
    · rw [handleFrame] at houtcome
      split at houtcome
      · exact absurd houtcome (by simp)
      · cases hparse : p.parse text with
        | none => exact absurd (hparse ▸ houtcome) (by simp)
        | some payload' =>
          rw [hparse] at houtcome
          cases hid : truthy (s.endpointIds c.phone) with
          | none => exact absurd (hid ▸ houtcome) (by simp)
          | some id =>
            rw [hid] at houtcome
            obtain ⟨rfl, -⟩ := Outcome.ingest.inj houtcome
            exact Or.inr ⟨truthy_eq_some hid, rfl⟩
    · exact Or.inl hf

theorem sockets_step {a : Action ι} (h : Sockets s) (hs : step p s a = some t) : Sockets t := by
  cases a with
  | change accounts endpoints =>
    obtain rfl := Option.some.inj hs
    exact ⟨h.listed, h.single, h.fresh, h.known⟩
  | start i =>
    obtain ⟨-, rfl⟩ := start_inv hs
    exact ⟨h.listed, h.single, h.fresh, h.known⟩
  | readAccount i =>
    obtain ⟨-, rfl⟩ := readAccount_inv hs
    exact ⟨h.listed, h.single, h.fresh, h.known⟩
  | readRows i =>
    obtain ⟨account, -, rfl⟩ := readRows_inv hs
    exact ⟨h.listed, h.single, h.fresh, h.known⟩
  | apply i =>
    obtain ⟨account, rows, -, rfl⟩ := apply_inv hs
    have hdone : Sockets { s with passes := Function.update s.passes i none } := ⟨h.listed, h.single, h.fresh, h.known⟩
    exact sockets_drop (sockets_visits hdone _ rows) _
  | fail i =>
    obtain rfl := Option.some.inj hs
    exact ⟨h.listed, h.single, h.fresh, h.known⟩
  | destroy =>
    obtain rfl := Option.some.inj hs
    have hdrop := sockets_drop h fun _ => true
    exact ⟨hdrop.listed, hdrop.single, hdrop.fresh, hdrop.known⟩
  | closed w =>
    obtain ⟨c, hc, rfl⟩ := closed_inv hs
    exact sockets_closed h hc
  | message w text =>
    obtain ⟨c, -, rfl⟩ := message_inv hs
    obtain ⟨ingested, heq, -⟩ := receive_eq (p := p) s c text
    rw [heq]
    exact ⟨h.listed, h.single, h.fresh, h.known⟩

omit [DecidableEq ι] in
private theorem findRows_spec {account : TransportAccount} {endpoints : List Endpoint} {ep : Endpoint}
    (h : ep ∈ findRows account endpoints) : ep.registrationState = .linked ∧ ep.enabled := by
  rw [findRows, List.mem_filter] at h
  simp only [decide_eq_true_eq] at h
  exact h.2.2

private theorem rows_step {a : Action ι} (h : Rows s) (hs : step p s a = some t) : Rows t := by
  cases a with
  | change accounts endpoints =>
    obtain rfl := Option.some.inj hs
    exact ⟨h.read, h.cached, h.passes, h.frames⟩
  | start i =>
    obtain ⟨-, rfl⟩ := start_inv hs
    exact rows_passes h (by simp)
  | readAccount i =>
    obtain ⟨-, rfl⟩ := readAccount_inv hs
    refine rows_passes h fun account rows hpass => ?_
    obtain ⟨_, -, hpass⟩ := Option.map_eq_some_iff.mp hpass
    exact absurd hpass (by simp)
  | readRows i =>
    obtain ⟨account, -, rfl⟩ := readRows_inv hs
    have hmore : Rows { s with read := findRows account s.endpoints ++ s.read } := by
      refine ⟨fun ep hep => ?_, fun phone id hid => ?_, fun j account' rows hj ep hep => ?_, fun f hf => ?_⟩
      · rcases List.mem_append.mp hep with hep | hep
        · exact findRows_spec hep
        · exact h.read ep hep
      · obtain ⟨ep, hep, hrest⟩ := h.cached phone id hid
        exact ⟨ep, List.mem_append_right _ hep, hrest⟩
      · exact List.mem_append_right _ (h.passes j account' rows hj ep hep)
      · obtain ⟨ep, hep, hrest⟩ := h.frames f hf
        exact ⟨ep, List.mem_append_right _ hep, hrest⟩
    refine rows_passes hmore fun account' rows hpass ep hep => ?_
    obtain ⟨rfl, rfl⟩ := Pass.rows.inj (Option.some.inj hpass)
    exact List.mem_append_left _ hep
  | apply i =>
    obtain ⟨account, rows, hpass, rfl⟩ := apply_inv hs
    have hdone : Rows { s with passes := Function.update s.passes i none } := rows_passes h (by simp)
    have hvisits := rows_visits hdone (p := p) (p.base account) (h.passes i account rows hpass)
    exact ⟨hvisits.read, hvisits.cached, hvisits.passes, hvisits.frames⟩
  | fail i =>
    obtain rfl := Option.some.inj hs
    exact rows_passes h (by simp)
  | destroy =>
    obtain rfl := Option.some.inj hs
    exact ⟨h.read, h.cached, h.passes, h.frames⟩
  | closed w =>
    obtain ⟨c, -, rfl⟩ := closed_inv hs
    exact ⟨h.read, h.cached, h.passes, h.frames⟩
  | message w text =>
    obtain ⟨c, -, rfl⟩ := message_inv hs
    obtain ⟨ingested, heq, hnew⟩ := receive_eq (p := p) s c text
    rw [heq]
    refine ⟨h.read, h.cached, h.passes, fun f hf => ?_⟩
    rcases hnew f hf with hold | ⟨hid, hphone⟩
    · exact h.frames f hold
    · rw [hphone]
      exact h.cached c.phone f.1 hid

theorem reachable_sockets (h : (system p).Reachable s) : Sockets s := by
  refine h.invariant (I := Sockets) ?_ fun s a t hi _ hs => sockets_step hi hs
  rintro s ⟨hsockets, -, -, -, hconns, -⟩
  refine ⟨fun phone w hw => ?_, fun w c hc => ?_, fun w _ => hconns w, fun w c hc => ?_⟩
  · exact absurd ((hsockets phone).symm.trans hw) (by simp)
  · exact absurd ((hconns w).symm.trans hc) (by simp)
  · exact absurd ((hconns w).symm.trans hc) (by simp)

private theorem reachable_rows (h : (system p).Reachable s) : Rows s := by
  refine h.invariant (I := Rows) ?_ fun s a t hi _ hs => rows_step hi hs
  rintro s ⟨-, hids, -, hpasses, -, hread, hingested⟩
  refine ⟨by simp [hread], fun phone id hid => ?_, fun i account rows hi => ?_, by simp [hingested]⟩
  · exact absurd ((hids phone).symm.trans hid) (by simp)
  · exact absurd ((hpasses i).symm.trans hi) (by simp)

/-- In every reachable state a number has at most one open socket, no frame on any socket that
still delivers is dropped for want of an endpoint, and what is ingested goes to an endpoint that
a pass has read as linked and enabled with this number. -/
theorem one_socket_per_number (h : (system p).Reachable s) :
    (∀ v w c c', s.conns v = some c → s.conns w = some c' → c.link = .open → c'.link = .open → c.phone = c'.phone →
      v = w) ∧
    (∀ w c text, s.conns w = some c → handleFrame p s c.phone text ≠ .noEndpoint) ∧
    ∀ f ∈ s.ingested, ∃ ep ∈ s.read, ep.id = f.1 ∧ ep.number = some f.2 ∧
      ep.registrationState = .linked ∧ ep.enabled := by
  have hsockets := reachable_sockets h
  have hrows := reachable_rows h
  refine ⟨fun v w c c' hc hc' hopen hopen' hphone => ?_, fun w c text hc => ?_, fun f hf => ?_⟩
  · have hv := hsockets.single v c hc hopen
    rw [hphone, hsockets.single w c' hc' hopen'] at hv
    exact (Option.some.inj hv).symm
  · obtain ⟨id, hid⟩ := Option.isSome_iff_exists.mp (hsockets.known w c hc)
    obtain ⟨ep, -, hep, -⟩ := hrows.cached c.phone id hid
    have htruthy : truthy (s.endpointIds c.phone) = some id := by
      rw [hid, truthy]
      intro hempty
      exact ep.key (hep.trans (Option.some.inj hempty))
    rw [handleFrame]
    split
    · simp
    · cases p.parse text with
      | none => simp
      | some payload =>
        dsimp only
        rw [htruthy]
        simp
  · obtain ⟨ep, hep, hid, hnumber⟩ := hrows.frames f hf
    exact ⟨ep, hep, hid, hnumber, hrows.read ep hep⟩

namespace Sample

def platform : Platform := ⟨none, fun _ => true, fun text => some (.str text)⟩

def account : TransportAccount := ⟨"signal account", signalAdapter, none⟩

def line : Endpoint := ⟨"signal line", by simp, account.id, some "+380671234567", none, .linked, true⟩

def empty : State Unit where
  accounts := [account]
  endpoints := [line]
  sockets _ := none
  endpointIds _ := none
  stopping := false
  passes _ := none
  conns _ := none
  next := 0
  read := []
  ingested := []

theorem empty_init : (system platform).init empty :=
  ⟨fun _ => rfl, fun _ => rfl, rfl, fun _ => rfl, fun _ => rfl, rfl, rfl⟩

def pass : List (Action Unit) := [.start (), .readAccount (), .readRows (), .apply ()]

end Sample

theorem one_socket_per_number_received : ∃ s : State Unit, s.ingested = [("signal line", "+380671234567")] ∧
    (∀ v w c c', s.conns v = some c → s.conns w = some c' → c.link = .open → c'.link = .open → c.phone = c'.phone →
      v = w) ∧
    (∀ w c text, s.conns w = some c → handleFrame Sample.platform s c.phone text ≠ .noEndpoint) ∧
    ∀ f ∈ s.ingested, ∃ ep ∈ s.read, ep.id = f.1 ∧ ep.number = some f.2 ∧
      ep.registrationState = .linked ∧ ep.enabled := by
  have hrun : ((system Sample.platform).replay Sample.empty (Sample.pass ++ [.message 0 "hello"])).map (·.ingested) =
      some [("signal line", "+380671234567")] := by
    rfl
  obtain ⟨s, hs, hingested⟩ := Option.map_eq_some_iff.mp hrun
  exact ⟨s, hingested, one_socket_per_number (System.Reachable.of_replay Sample.empty_init hs)⟩

end MessagingGateway.Inbound.Bridge
