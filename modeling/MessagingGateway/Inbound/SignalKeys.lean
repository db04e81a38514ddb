import MessagingGateway.Inbound.Signal
import MessagingGateway.Inbound.Sequential
import MessagingGateway.Inbound.Uniqueness
import Mathlib.Data.Finset.Card
import Mathlib.Data.Finset.Dedup

/-! Signal messages are stored under their timestamp alone: whom a message is from, and
whether it is ours, does not enter the key. -/
namespace MessagingGateway.Inbound
open Conversations Js Transition

/-- A Signal number: its row and what the adapter is told of it. -/
structure Line where
  endpoint : Endpoint
  config : EndpointConfig

namespace Line

/-- An inbound message of the line. -/
def Holds (line : Line) (m : MessageRow) : Prop := m.endpointId = line.endpoint.id ∧ m.direction = .inbound

instance (line : Line) : DecidablePred line.Holds := fun _ => inferInstanceAs (Decidable (_ ∧ _))

def inboundRows (line : Line) (db : Database) : List MessageRow := db.messages.filter fun m => line.Holds m

/-- `ingest` of one frame; a throw of the adapter stores nothing. -/
def ingest (line : Line) (supplies : Nat → Supply) (now : Instant) (db : Database) (frame : Frame) : Database :=
  ((normalizeInbound line.config frame now).getD []).foldl
    (fun db inbound => (persist supplies db inbound line.endpoint .signal).1) db

end Line

/-- Whom a data envelope is from, and when it was sent. -/
def Frame.key (frame : Frame) (now : Instant) : Option (String × Instant) :=
  frame.envelope.dataMessage.map fun dm => (frame.envelope.sender, frame.envelope.sentAt dm now)

/-- The tables, and the keys of the data envelopes ingested so far. -/
structure Arrivals where
  db : Database
  keys : List (String × Instant)

inductive Arrival where
  | ingest (frame : Frame) (now : Instant) (supplies : Nat → Supply)
  /-- A row that is no inbound message of the line: one we send, or another line's. -/
  | store (row : MessageRow)
  /-- `send` was accepted: the message we sent takes the timestamp as its external id. -/
  | accepted (id : Uuid) (externalId : Option String)

def Database.setExternalId (db : Database) (id : Uuid) (externalId : Option String) : Database :=
  { db with messages := db.messages.map fun m =>
      if m.id = id ∧ m.direction = .outbound then { m with externalId := externalId } else m }

namespace Line
variable (line : Line)

def arrivals : System Arrivals Arrival where
  init s := line.inboundRows s.db = [] ∧ s.keys = []
  step s
    | .ingest frame now supplies =>
      some ⟨line.ingest supplies now s.db frame, (frame.key now).toList ++ s.keys⟩
    | .store row => if line.Holds row then none
      else some { s with db := { s.db with messages := s.db.messages ++ [row] } }
    | .accepted id externalId => some { s with db := s.db.setExternalId id externalId }

/-- One stored message for each sender and time. -/
def Exact (s : Arrivals) : Prop := (line.inboundRows s.db).length = s.keys.toFinset.card

instance : DecidablePred line.Exact := fun _ => inferInstanceAs (Decidable (_ = _))

/-- A data envelope is a repetition, or its timestamp is no external id of the line yet. -/
def Unmerged (s : Arrivals) : Arrival → Prop
  | .ingest frame now _ => ∀ key ∈ frame.key now, key ∈ s.keys ∨
      (endpointNumber line.config).isSome ∧ s.db.findMessage line.endpoint.id key.2.text = none
  | _ => True

end Line

/-- What `normalizeInbound` makes of a data message or a mirrored one. -/
structure Read (frame : Frame) (now : Instant) (dm : DataMessage) (inbound : CanonicalInbound) : Prop where
  message : (frame.envelope.dataMessage <|> frame.envelope.sentMessage) = some dm
  externalId : inbound.externalId = (frame.envelope.sentAt dm now).text
  direction : inbound.direction = some (if frame.envelope.isOwn then .outbound else .inbound)
  peer : (if frame.envelope.isOwn then inbound.toAddresses.head? else some inbound.fromAddress) =
    some (makeAddress (frame.envelope.peer dm) defaultCountry)

private theorem normalizeInbound_cases {config : EndpointConfig} {frame : Frame} {now : Instant}
    {messages : List CanonicalInbound} (h : normalizeInbound config frame now = some messages) :
    frame.envelope.dataMessage = none ∧ messages = [] ∨
      ∃ dm inbound, messages = [inbound] ∧ Read frame now dm inbound := by
  unfold normalizeInbound at h
  dsimp only at h
  split at h
  · rename_i hnone
    obtain rfl := Option.some.inj h
    refine .inl ⟨?_, rfl⟩
    cases hdata : frame.envelope.dataMessage with
    | none => rfl
    | some dm => simp [hdata] at hnone
  · rename_i dm hdm
    obtain ⟨self, -, h⟩ := Option.bind_eq_some_iff.mp h
    obtain ⟨info, -, h⟩ := Option.bind_eq_some_iff.mp h
    refine .inr ⟨dm, _, (Option.some.inj h).symm, hdm, rfl, rfl, ?_⟩
    cases frame.envelope.isOwn <;> rfl

/-- A data envelope of a line with a number is always read. -/
theorem normalizeInbound_data {config : EndpointConfig} {frame : Frame} (now : Instant) {dm : DataMessage}
    (hdata : frame.envelope.dataMessage = some dm) (hnumber : (endpointNumber config).isSome) :
    (normalizeInbound config frame now).isSome := by
  obtain ⟨self, hself⟩ := Option.isSome_iff_exists.mp hnumber
  have hmeta : (frame.envelope.groupMeta dm).isSome := by
    unfold Envelope.groupMeta
    split
    · rename_i hgroup
      obtain ⟨group, hgroup⟩ := Option.isSome_iff_exists.mp hgroup
      simp [hdata, hgroup]
    · rfl
  obtain ⟨info, hinfo⟩ := Option.isSome_iff_exists.mp hmeta
  simp [normalizeInbound, hdata, hself, hinfo]

/-- Without a number every data envelope throws. -/
theorem normalizeInbound_numberless {config : EndpointConfig} {frame : Frame} {now : Instant} {dm : DataMessage}
    (hdata : frame.envelope.dataMessage = some dm) (hnumber : endpointNumber config = none) :
    normalizeInbound config frame now = none := by
  simp [normalizeInbound, hdata, hnumber]

/-- A number that was understood begins with its plus. -/
theorem toE164_ne_empty (input cc : String) : toE164 input cc ≠ some "" := by
  unfold toE164
  dsimp only
  split
  · simp
  · split
    · rename_i hplus
      intro h
      have hnil : trim input.toList = [] := by simpa using congrArg String.toList (Option.some.inj h)
      simp [hnil, isE164] at hplus
    · split
      · simp
      · intro h
        obtain ⟨chars, hchars, hempty⟩ := Option.map_eq_some_iff.mp h
        have hnil : chars = [] := by simpa using congrArg String.toList hempty
        subst hnil
        unfold ofDigits at hchars
        split at hchars
        · exact absurd hchars (by simp)
        · split at hchars
          · exact absurd hchars (by simp)
          · split at hchars <;> exact absurd hchars (by simp)

section
variable {line : Line} {frame : Frame} {now : Instant} {db : Database} {supplies : Nat → Supply} {dm : DataMessage}
  {inbound : CanonicalInbound}

private theorem Read.nonempty (h : Read frame now dm inbound) : inbound.externalId ≠ "" := by
  rw [h.externalId]
  exact (frame.envelope.sentAt dm now).text_ne_empty

private theorem Read.phone (h : Read frame now dm inbound) (endpoint : Endpoint) (channelType : ChannelType)
    (phase : PersistPhase) : PersistCall.peerPhone ⟨inbound, endpoint, channelType, phase⟩ ≠ some "" := by
  have hpeer : PersistCall.counterparty ⟨inbound, endpoint, channelType, phase⟩ =
      some (makeAddress (frame.envelope.peer dm) defaultCountry) := by
    rw [← h.peer]
    unfold PersistCall.counterparty PersistCall.direction
    cases hown : frame.envelope.isOwn <;> simp [h.direction, hown]
  simp only [PersistCall.peerPhone, hpeer, Option.bind_some]
  exact toE164_ne_empty _ _

private theorem Database.findMessage_eq_none {endpointId : Uuid} {x : String} : db.findMessage endpointId x = none ↔
    ∀ m ∈ db.messages, m.endpointId = endpointId → m.externalId ≠ some x := by
  simp [Database.findMessage, List.find?_eq_none]

/-- A frame whose timestamp is taken is dropped. -/
theorem Read.dropped (h : Read frame now dm inbound) {m : MessageRow}
    (hm : db.findMessage line.endpoint.id (frame.envelope.sentAt dm now).text = some m) :
    (persist supplies db inbound line.endpoint .signal).1 = db :=
  persist_found h.nonempty (h.externalId ▸ hm)

/-- A frame whose timestamp is free is stored in its direction, under its timestamp. -/
theorem Read.stored (h : Read frame now dm inbound) (supplies : Nat → Supply)
    (hnone : db.findMessage line.endpoint.id (frame.envelope.sentAt dm now).text = none) :
    ∃ row : MessageRow, (persist supplies db inbound line.endpoint .signal).1.messages = db.messages ++ [row] ∧
      row.endpointId = line.endpoint.id ∧ row.externalId = some (frame.envelope.sentAt dm now).text ∧
      row.direction = if frame.envelope.isOwn then .outbound else .inbound := by
  obtain ⟨v, id, time, hmessages⟩ := persist_missed supplies .signal h.nonempty
    (h.externalId ▸ hnone) (h.phone line.endpoint .signal .findExisting)
  refine ⟨_, hmessages, rfl, ?_, ?_⟩
  · have hkey : truthy (some inbound.externalId) = some inbound.externalId := truthy_of_ne h.nonempty
    exact hkey.trans (congrArg some h.externalId)
  · cases hown : frame.envelope.isOwn <;> simp [messageRow, PersistCall.direction, h.direction, hown]

/-- What one frame does to the inbound messages of the line. -/
theorem Line.ingest_data (line : Line) (supplies : Nat → Supply) (hdata : frame.envelope.dataMessage = some dm)
    (hnumber : (endpointNumber line.config).isSome)
    (hnone : db.findMessage line.endpoint.id (frame.envelope.sentAt dm now).text = none) :
    ∃ row : MessageRow, line.inboundRows (line.ingest supplies now db frame) = line.inboundRows db ++ [row] ∧
      row.externalId = some (frame.envelope.sentAt dm now).text := by
  obtain ⟨messages, hmessages⟩ := Option.isSome_iff_exists.mp (normalizeInbound_data now hdata hnumber)
  rcases normalizeInbound_cases hmessages with ⟨hno, -⟩ | ⟨dm', inbound, rfl, hread⟩
  · exact absurd hdata (by simp [hno])
  · obtain rfl : dm = dm' := by simpa [hdata] using hread.message
    have hown : frame.envelope.isOwn = false := by simp [Envelope.isOwn, hdata]
    obtain ⟨row, hrow, hendpoint, hid, hdirection⟩ := hread.stored supplies hnone
    refine ⟨row, ?_, hid⟩
    have hholds : line.Holds row := ⟨hendpoint, by simpa [hown] using hdirection⟩
    simp [Line.ingest, hmessages, Line.inboundRows, hrow, hholds]

/-- Any other frame leaves them alone. -/
theorem Line.ingest_other (hother : ∀ dm, frame.envelope.dataMessage = some dm → endpointNumber line.config = none ∨
      db.findMessage line.endpoint.id (frame.envelope.sentAt dm now).text ≠ none) :
    line.inboundRows (line.ingest supplies now db frame) = line.inboundRows db := by
  unfold Line.ingest
  cases hmessages : normalizeInbound line.config frame now with
  | none => rfl
  | some messages =>
    rcases normalizeInbound_cases hmessages with ⟨-, rfl⟩ | ⟨dm, inbound, rfl, hread⟩
    · rfl
    · simp only [Option.getD_some, List.foldl_cons, List.foldl_nil]
      cases hfound : db.findMessage line.endpoint.id (frame.envelope.sentAt dm now).text with
      | some m => rw [hread.dropped hfound]
      | none =>
        have hown : frame.envelope.isOwn = true := by
          cases hdata : frame.envelope.dataMessage with
          | none =>
            simp [Envelope.isOwn, hdata, show frame.envelope.sentMessage = some dm by simpa [hdata] using hread.message]
          | some dm' =>
            obtain rfl : dm' = dm := by simpa [hdata] using hread.message
            rcases hother dm' hdata with hnumber | htaken
            · exact absurd hmessages (by simp [normalizeInbound_numberless hdata hnumber])
            · exact absurd hfound htaken
        obtain ⟨row, hrow, -, -, hdirection⟩ := hread.stored supplies hfound
        have hholds : ¬ line.Holds row := fun h => by simp [hown, h.2] at hdirection
        simp [Line.inboundRows, hrow, hholds]

private theorem Line.setExternalId_inboundRows (id : Uuid) (externalId : Option String) :
    line.inboundRows (db.setExternalId id externalId) = line.inboundRows db := by
  unfold Line.inboundRows Database.setExternalId
  dsimp only
  induction db.messages with
  | nil => rfl
  | cons m rest ih =>
    rw [List.map_cons, List.filter_cons, List.filter_cons, ih]
    by_cases hset : m.id = id ∧ m.direction = .outbound
    · simp [hset, Line.Holds]
    · rw [if_neg hset]

end

namespace Line
variable {line : Line} {s t : Arrivals}

/-- The timestamp of every envelope seen so far is taken. -/
def Recorded (line : Line) (s : Arrivals) : Prop :=
  ∀ key ∈ s.keys, ∃ m ∈ line.inboundRows s.db, m.externalId = some key.2.text

private theorem Recorded.taken (h : line.Recorded s) {key : String × Instant} (hkey : key ∈ s.keys) :
    s.db.findMessage line.endpoint.id key.2.text ≠ none := by
  obtain ⟨m, hm, hid⟩ := h key hkey
  obtain ⟨hmem, hholds⟩ := List.mem_filter.mp hm
  intro hnone
  exact Database.findMessage_eq_none.mp hnone m hmem (of_decide_eq_true hholds).1 hid

/-- A step that keeps the line's inbound messages and sees no new key. -/
private theorem quiet (hrows : line.inboundRows t.db = line.inboundRows s.db)
    (hkeys : ∀ key, key ∈ t.keys ↔ key ∈ s.keys) :
    (line.Recorded s → line.Recorded t) ∧ (line.Exact s → line.Exact t) := by
  have hset : t.keys.toFinset = s.keys.toFinset := by
    ext key
    simp [hkeys]
  constructor
  · intro h key hkey
    rw [hrows]
    exact h key ((hkeys key).mp hkey)
  · intro h
    unfold Exact at h ⊢
    rw [hrows, hset, h]

private theorem card_cons {key : String × Instant} (hkey : key ∉ s.keys) :
    (key :: s.keys).toFinset.card = s.keys.toFinset.card + 1 := by
  rw [List.toFinset_cons, Finset.card_insert_of_notMem (by simpa using hkey)]

private theorem keep (s : Arrivals) (a : Arrival) (t : Arrivals) (hrecorded : line.Recorded s) (hexact : line.Exact s)
    (hunmerged : line.Unmerged s a) (hs : line.arrivals.step s a = some t) : line.Recorded t ∧ line.Exact t := by
  have quietly (hrows : line.inboundRows t.db = line.inboundRows s.db) (hkeys : ∀ key, key ∈ t.keys ↔ key ∈ s.keys) :
      line.Recorded t ∧ line.Exact t :=
    ⟨(quiet hrows hkeys).1 hrecorded, (quiet hrows hkeys).2 hexact⟩
  cases a with
  | store row =>
    obtain ⟨hother, hs⟩ := Option.ite_none_left_eq_some.mp hs
    obtain rfl := Option.some.inj hs
    exact quietly (by simp [inboundRows, hother]) fun _ => Iff.rfl
  | accepted id externalId =>
    obtain rfl := Option.some.inj hs
    exact quietly (setExternalId_inboundRows id externalId) fun _ => Iff.rfl
  | ingest frame now supplies =>
    obtain rfl := Option.some.inj hs
    cases hdata : frame.envelope.dataMessage with
    | none =>
      refine quietly (ingest_other fun dm hdm => absurd hdm (by simp [hdata])) fun key => ?_
      simp [Frame.key, hdata]
    | some dm =>
      have hkey : frame.key now = some (frame.envelope.sender, frame.envelope.sentAt dm now) := by
        rw [Frame.key, hdata, Option.map_some]
      rcases hunmerged _ hkey with hold | ⟨hnumber, hfree⟩
      · refine quietly (ingest_other fun dm' hdm => .inr ?_) fun key => ?_
        · obtain rfl : dm = dm' := Option.some.inj (hdata.symm.trans hdm)
          exact hrecorded.taken hold
        · rw [hkey]
          constructor
          · intro hmem
            rcases List.mem_cons.mp hmem with rfl | hmem
            · exact hold
            · exact hmem
          · exact fun hmem => List.mem_cons_of_mem _ hmem
      · obtain ⟨row, hrows, hid⟩ := ingest_data line supplies hdata hnumber hfree
        have hnew : (frame.envelope.sender, frame.envelope.sentAt dm now) ∉ s.keys :=
          fun hold => hrecorded.taken hold hfree
        constructor
        · intro key hmem
          rw [hkey] at hmem
          dsimp only
          rw [hrows]
          rcases List.mem_cons.mp hmem with rfl | hmem
          · exact ⟨row, by simp, hid⟩
          · obtain ⟨m, hm, hmid⟩ := hrecorded key hmem
            exact ⟨m, List.mem_append_left _ hm, hmid⟩
        · unfold Exact at hexact ⊢
          rw [hkey, hrows, List.length_append, hexact]
          exact (card_cons hnew).symm

private theorem lose (s : Arrivals) (a : Arrival) (t : Arrivals) (hexact : line.Exact s)
    (hmerged : ¬ line.Unmerged s a) (hs : line.arrivals.step s a = some t) : ¬ line.Exact t := by
  cases a with
  | store row => exact absurd trivial hmerged
  | accepted id externalId => exact absurd trivial hmerged
  | ingest frame now supplies =>
    obtain rfl := Option.some.inj hs
    simp only [Unmerged, not_forall, not_or, not_and] at hmerged
    obtain ⟨key, hkey, hnew, hlost⟩ := hmerged
    obtain ⟨dm, hdata, rfl⟩ := Option.map_eq_some_iff.mp hkey
    have hrows : line.inboundRows (line.ingest supplies now s.db frame) = line.inboundRows s.db := by
      apply ingest_other
      intro dm' hdm
      obtain rfl : dm = dm' := Option.some.inj (hdata.symm.trans hdm)
      cases hnumber : endpointNumber line.config with
      | none => exact .inl rfl
      | some self => exact .inr (hlost (by rw [hnumber]; rfl))
    intro hexact'
    unfold Exact at hexact hexact'
    rw [show frame.key now = some (frame.envelope.sender, frame.envelope.sentAt dm now) from hkey, hrows,
      hexact] at hexact'
    have hcard := card_cons hnew
    simp only [Option.toList_some, List.singleton_append] at hexact'
    omega

/-- From an empty line the messages stay exact as long as no new envelope brings a
timestamp that is already an external id of the line, ours included. -/
theorem exact_iff_unmerged (line : Line) {s : Arrivals} (hs : line.arrivals.init s) (as : List Arrival) :
    line.arrivals.Along line.Exact s as ↔ line.arrivals.Obeys line.Unmerged s as := by
  apply System.along_iff_obeys (I := line.Recorded) keep fun s a t _ => lose s a t
  · intro key hkey
    exact absurd hkey (by simp [hs.2])
  · simp [Exact, hs.1, hs.2]

end Line

namespace Sample

def line : Line := ⟨endpoint, ⟨"", some "+380441234567"⟩⟩

def tick : Instant := ⟨1793188799123, by decide⟩

def text (source message : String) : Frame where
  raw := .null
  envelope := ⟨some source, some source, some tick, some ⟨some tick, some message, [], none, none, none⟩, none⟩

/-- Two people write in the same millisecond; the first frame is replayed. -/
def sameInstant : List Arrival :=
  [.ingest (text "+380671112233" "Доброго дня") tick fun _ => supply,
   .ingest (text "+380502223344" "Передзвоніть, будь ласка") tick fun _ => second,
   .ingest (text "+380671112233" "Доброго дня") tick fun _ => second]

/-- Someone writes in the very millisecond we sent a message of ours. -/
def ownInstant : List Arrival :=
  [.store (messageRow ⟨{ envelope with direction := some .outbound, externalId := "" }, endpoint, .signal, .threw⟩
      supply.rowId second.rowId 1793188799000),
   .accepted second.rowId (some tick.text),
   .ingest (text "+380671112233" "Доброго дня") tick fun _ => supply]

end Sample

/-- One of two messages of one millisecond is lost, and so is one that meets an own message's id. -/
theorem same_instant_merged :
    ¬ Sample.line.arrivals.Along Sample.line.Exact ⟨Sample.tables, []⟩ Sample.sameInstant ∧
    ¬ Sample.line.arrivals.Along Sample.line.Exact ⟨Sample.tables, []⟩ Sample.ownInstant := by
  have hsame : (Sample.line.arrivals.replay ⟨Sample.tables, []⟩ Sample.sameInstant).map
      (fun t => ((Sample.line.inboundRows t.db).length, t.keys.toFinset.card)) = some (1, 2) := by
    decide +kernel
  have hown : (Sample.line.arrivals.replay ⟨Sample.tables, []⟩ Sample.ownInstant).map
      (fun t => ((Sample.line.inboundRows t.db).length, t.keys.toFinset.card)) = some (0, 1) := by
    decide +kernel
  constructor
  · intro halong
    obtain ⟨t, ht, hcount⟩ := Option.map_eq_some_iff.mp hsame
    obtain ⟨hrows, hkeys⟩ := Prod.mk.inj hcount
    have hexact : _ = _ := halong.last ht
    omega
  · intro halong
    obtain ⟨t, ht, hcount⟩ := Option.map_eq_some_iff.mp hown
    obtain ⟨hrows, hkeys⟩ := Prod.mk.inj hcount
    have hexact : _ = _ := halong.last ht
    omega

/-- A replayed frame adds nothing. -/
theorem exact_when_replayed : Sample.line.arrivals.Along Sample.line.Exact ⟨Sample.tables, []⟩
    [.ingest (Sample.text "+380671112233" "Доброго дня") Sample.tick fun _ => Sample.supply,
     .ingest (Sample.text "+380671112233" "Доброго дня") Sample.tick fun _ => Sample.second] := by
  apply (Line.exact_iff_unmerged Sample.line ⟨rfl, rfl⟩ _).mpr
  refine ⟨?_, ?_, trivial⟩
  · intro key _
    exact .inr ⟨by decide +kernel, rfl⟩
  · intro key hkey
    exact .inl (List.mem_append_left _ (Option.mem_toList.mpr hkey))

end MessagingGateway.Inbound
