import MessagingGateway.Sms.Buffer

/-! No SMS is lost on its way through the buffer: until its text is stored, a row that is
not deleted holds it. What can break this is an id that names two different things. -/
namespace MessagingGateway.Sms
open Inbound Transition

/-- The message comes from the sender and its text contains the given one. -/
def Holds (m : MessageRow) (sender text : String) : Prop :=
  m.fromJson.raw = sender ∧ text.toList <:+: (m.contentJson.text.getD "").toList

/-- A stored message of the endpoint and the sender contains the text. -/
def Carried (db : Database) (endpointId : Uuid) (sender text : String) : Prop :=
  ∃ m ∈ db.messages, m.endpointId = endpointId ∧ Holds m sender text

/-- The SMS is in the buffer or inside a stored message. -/
def Covered (w : World) (a : Accepted) : Prop :=
  (∃ row ∈ w.buffer, row.endpointId = a.endpointId ∧ row.sender = a.sender ∧ row.text = a.text) ∨
    Carried w.db a.endpointId a.sender a.text

/-- Every accepted SMS with an external id not seen before is kept. -/
def NoneLost (w : World) : Prop := ∀ a ∈ w.accepted, a.isNew = true → Covered w a

instance (m : MessageRow) (sender text : String) : Decidable (Holds m sender text) :=
  inferInstanceAs (Decidable (_ ∧ _))

instance (w : World) (a : Accepted) : Decidable (Covered w a) :=
  inferInstanceAs (Decidable ((∃ row ∈ w.buffer, _) ∨ ∃ m ∈ w.db.messages, _ ∧ Holds m a.sender a.text))

instance (w : World) : Decidable (NoneLost w) := inferInstanceAs (Decidable (∀ a ∈ w.accepted, _))

/-- The call of `persist` a task is in, and the texts it is to store. -/
def Task.storing : Task → Option (PersistCall × List String)
  | .persistSms sms call => some (call, [sms.text])
  | .storeMessage call current _ _ _ => some (call, current.parts.map (·.text))
  | _ => none

/-- What `persist` finds already stored under an id is what it was about to store. -/
def Genuine (w : World) : Action → Prop
  | .advance c _ => ∀ storing ∈ (w.tasks c).bind Task.storing, storing.1.phase.LookingUp →
      ∀ m ∈ storing.1.externalId.bind (w.db.findMessage storing.1.endpoint.id),
        ∀ text ∈ storing.2, Holds m storing.1.inbound.fromAddress.raw text
  | _ => True

instance (w : World) : (a : Action) → Decidable (Genuine w a)
  | .advance c _ => inferInstanceAs (Decidable (∀ storing ∈ (w.tasks c).bind Task.storing, _ → _))
  | .ingest .. | .flush .. | .fail _ | .die _ => .isTrue trivial

private theorem infix_join {text : String} {texts : List String} (h : text ∈ texts) :
    text.toList <:+: (String.join texts).toList := by
  rw [String.toList_join]
  exact List.infix_of_mem_flatten (List.mem_map_of_mem h)

private theorem mem_assemblies {parts : List PartRow} {p : PartRow} :
    p ∈ parts ↔ ∃ a ∈ assemblies parts, p ∈ a.parts := by
  simp [mem_assembleParts (fun p => p.text.toList) parts p, assemblies, Assembly.parts]

/-- The rows of one endpoint and sender. -/
def Same (parts : List PartRow) : Prop :=
  ∀ p ∈ parts, ∀ q ∈ parts, p.endpointId = q.endpointId ∧ p.sender = q.sender

private theorem insertPart_spec {rows : List PartRow} {groups : List (List PartRow)} {row : PartRow}
    (hgroups : ∀ g ∈ groups, g ⊆ rows ∧ Same g) (hrow : row ∈ rows) :
    ∀ g ∈ insertPart groups row, g ⊆ rows ∧ Same g := by
  induction groups with
  | nil =>
    intro g hg
    obtain rfl := List.mem_singleton.mp hg
    refine ⟨List.cons_subset.mpr ⟨hrow, List.nil_subset _⟩, fun p hp q hq => ?_⟩
    rw [List.mem_singleton.mp hp, List.mem_singleton.mp hq]
    exact ⟨rfl, rfl⟩
  | cons group groups ih =>
    obtain ⟨hgroup, hrest⟩ := List.forall_mem_cons.mp hgroups
    unfold insertPart
    split
    · rename_i hmatch
      obtain ⟨head, hhead, hid, hsender⟩ := hmatch
      have hmem : head ∈ group := List.mem_of_mem_head? hhead
      have hkey : ∀ p ∈ group ++ [row], p.endpointId = row.endpointId ∧ p.sender = row.sender := by
        intro p hp
        rcases List.mem_append.mp hp with hp | hp
        · obtain ⟨hid', hsender'⟩ := hgroup.2 p hp head hmem
          exact ⟨hid'.trans hid, hsender'.trans hsender⟩
        · rw [List.mem_singleton.mp hp]
          exact ⟨rfl, rfl⟩
      refine List.forall_mem_cons.mpr ⟨⟨?_, fun p hp q hq => ?_⟩, hrest⟩
      · exact List.append_subset.mpr ⟨hgroup.1, List.cons_subset.mpr ⟨hrow, List.nil_subset _⟩⟩
      · exact ⟨(hkey p hp).1.trans (hkey q hq).1.symm, (hkey p hp).2.trans (hkey q hq).2.symm⟩
    · exact List.forall_mem_cons.mpr ⟨hgroup, ih hrest⟩

private theorem foldl_insertPart_spec (rows : List PartRow) (later : List PartRow) (hsub : later ⊆ rows)
    {groups : List (List PartRow)} (hgroups : ∀ g ∈ groups, g ⊆ rows ∧ Same g) :
    ∀ g ∈ later.foldl insertPart groups, g ⊆ rows ∧ Same g := by
  induction later generalizing groups with
  | nil => exact hgroups
  | cons row later ih =>
    obtain ⟨hrow, hlater⟩ := List.cons_subset.mp hsub
    exact ih hlater (insertPart_spec hgroups hrow)

private theorem readyGroups_spec {setup : Setup} {now : Nat} {rows : List PartRow} :
    ∀ g ∈ readyGroups setup now rows, g ⊆ rows ∧ Same g := by
  intro g hg
  have hsorted := foldl_insertPart_spec rows (rows.insertionSort fun a b => a.arrivedAt ≤ b.arrivedAt)
    (fun p hp => (List.mem_insertionSort _).mp hp) (fun g hg => absurd hg List.not_mem_nil)
  exact hsorted g (List.mem_filter.mp hg).1

/-- Texts that the call stores, or has stored. -/
structure Storing (db : Database) (call : PersistCall) (texts : List String) : Prop where
  carried : ∀ text ∈ texts, text.toList <:+: (call.inbound.content.text.getD "").toList
  stored : call.phase.Unfinished → ∀ text ∈ texts,
    Carried db call.endpoint.id call.inbound.fromAddress.raw text

/-- A row says what its inbound message says. -/
structure PartRow.Sound (setup : Setup) (row : PartRow) : Prop where
  sender : row.inbound.fromAddress.raw = row.sender
  text : row.inbound.content.text = some row.text
  endpoint : ∃ endpoint ∈ setup.endpoints, endpoint.id = row.endpointId

/-- A snapshot of rows of one conversation: a row still in the buffer under one of its ids
is the one of the snapshot. -/
structure Snapshot (setup : Setup) (w : World) (parts : List PartRow) : Prop where
  sound : ∀ p ∈ parts, p.Sound setup
  used : ∀ p ∈ parts, p.id ∈ w.used
  rows : ∀ p ∈ parts, ∀ row ∈ w.buffer, row.id = p.id → row = p
  same : Same parts

/-- Every part is stored, or will be by one of the messages still to come. -/
structure Settling (db : Database) (endpoint : Endpoint) (parts : List PartRow) (pending : List Assembly) : Prop where
  endpoint : ∀ p ∈ parts, p.endpointId = endpoint.id
  mem : ∀ a ∈ pending, a.parts ⊆ parts
  covered : ∀ p ∈ parts, Carried db p.endpointId p.sender p.text ∨ ∃ a ∈ pending, p ∈ a.parts

def Task.Sound (setup : Setup) (w : World) : Task → Prop
  | .readWaiting sms | .createPart sms =>
    sms.endpoint ∈ setup.endpoints ∧ sms.inbound.content.text = some sms.text
  | .persistSms sms call => sms.endpoint ∈ setup.endpoints ∧ call.endpoint = sms.endpoint ∧
      call.inbound = sms.inbound ∧ Storing w.db call [sms.text]
  | .readBuffer _ => True
  | .findEndpoint parts groups => Snapshot setup w parts ∧ ∀ g ∈ groups, Snapshot setup w g
  | .storeMessage call current pending parts groups =>
    (Snapshot setup w parts ∧ ∀ g ∈ groups, Snapshot setup w g) ∧
      Settling w.db call.endpoint parts (current :: pending) ∧
      (∀ p ∈ current.parts, p.sender = call.inbound.fromAddress.raw) ∧
      Storing w.db call (current.parts.map (·.text))
  | .deleteParts parts groups => (Snapshot setup w parts ∧ ∀ g ∈ groups, Snapshot setup w g) ∧
      ∀ p ∈ parts, Carried w.db p.endpointId p.sender p.text

/-- Messages stay, row ids are never drawn again, and the buffer gains rows only under new ids. -/
structure Grows (w w' : World) : Prop where
  messages : w.db.messages ⊆ w'.db.messages
  used : w.used ⊆ w'.used
  rows : ∀ row ∈ w'.buffer, row ∈ w.buffer ∨ row.id ∉ w.used

theorem Carried.mono {db db' : Database} (h : db.messages ⊆ db'.messages) {endpointId : Uuid} {sender text : String}
    (hc : Carried db endpointId sender text) : Carried db' endpointId sender text := by
  obtain ⟨m, hm, hheld⟩ := hc
  exact ⟨m, h hm, hheld⟩

theorem Storing.mono {db db' : Database} (h : db.messages ⊆ db'.messages) {call : PersistCall} {texts : List String}
    (hs : Storing db call texts) : Storing db' call texts :=
  ⟨hs.carried, fun hphase text htext => (hs.stored hphase text htext).mono h⟩

theorem Settling.mono {db db' : Database} (h : db.messages ⊆ db'.messages) {endpoint : Endpoint}
    {parts : List PartRow} {pending : List Assembly} (hs : Settling db endpoint parts pending) :
    Settling db' endpoint parts pending :=
  ⟨hs.endpoint, hs.mem, fun p hp => (hs.covered p hp).imp_left (Carried.mono h)⟩

theorem Snapshot.mono {setup : Setup} {w w' : World} (h : Grows w w') {parts : List PartRow}
    (hs : Snapshot setup w parts) : Snapshot setup w' parts := by
  refine ⟨hs.sound, fun p hp => h.used (hs.used p hp), fun p hp row hrow hid => ?_, hs.same⟩
  rcases h.rows row hrow with hold | hnew
  · exact hs.rows p hp row hold hid
  · exact absurd (hid ▸ hs.used p hp) hnew

theorem Task.Sound.mono {setup : Setup} {w w' : World} (h : Grows w w') {task : Task} (hs : task.Sound setup w) :
    task.Sound setup w' := by
  cases task with
  | readWaiting sms => exact hs
  | createPart sms => exact hs
  | persistSms sms call => exact ⟨hs.1, hs.2.1, hs.2.2.1, hs.2.2.2.mono h.messages⟩
  | readBuffer now => exact trivial
  | findEndpoint parts groups => exact ⟨hs.1.mono h, fun g hg => (hs.2 g hg).mono h⟩
  | storeMessage call current pending parts groups =>
    obtain ⟨⟨hparts, hgroups⟩, hsettling, hsender, hstoring⟩ := hs
    exact ⟨⟨hparts.mono h, fun g hg => (hgroups g hg).mono h⟩, hsettling.mono h.messages, hsender,
      hstoring.mono h.messages⟩
  | deleteParts parts groups =>
    obtain ⟨⟨hparts, hgroups⟩, hcarried⟩ := hs
    exact ⟨⟨hparts.mono h, fun g hg => (hgroups g hg).mono h⟩, fun p hp => (hcarried p hp).mono h.messages⟩

/-- Everything accepted is covered, rows and tasks are sound, and row ids are single. -/
structure Kept (setup : Setup) (w : World) : Prop where
  covered : ∀ a ∈ w.accepted, Covered w a
  rows : ∀ row ∈ w.buffer, row.Sound setup ∧ row.id ∈ w.used
  single : ∀ row ∈ w.buffer, ∀ row' ∈ w.buffer, row.id = row'.id → row = row'
  tasks : ∀ c task, w.tasks c = some task → task.Sound setup w

theorem persistStep_eq {w w' : World} {call : PersistCall} {smsIds : List String} {supply : Supply}
    {phase : PersistPhase} (h : persistStep w call smsIds supply = some (w', phase)) :
    ∃ db origins, w' = { w with db := db, origins := origins } ∧ Progress w.db call db phase := by
  obtain ⟨⟨db, phase'⟩, hadvance, heq⟩ := Option.map_eq_some_iff.mp h
  obtain ⟨rfl, rfl⟩ := Prod.mk.inj heq
  exact ⟨db, _, rfl, advance_progress hadvance⟩

theorem progress_messages {db db' : Database} {call : PersistCall} {phase : PersistPhase}
    (h : Progress db call db' phase) : db.messages ⊆ db'.messages := by
  cases h with
  | created conversation supply hphase => exact List.subset_append_left _ _
  | threaded _ _ _ _ hmessages => exact hmessages ▸ List.Subset.refl _
  | carried _ _ _ _ _ _ hmessages => exact hmessages ▸ List.Subset.refl _
  | _ => exact List.Subset.refl _

/-- Past its insert, and where it has found the message there, a call has its texts stored. -/
theorem Storing.progress {db db' : Database} {call : PersistCall} {texts : List String} {phase : PersistPhase}
    (h : Storing db call texts) (hp : Progress db call db' phase)
    (hg : call.phase.LookingUp → ∀ m ∈ call.externalId.bind (db.findMessage call.endpoint.id),
      ∀ text ∈ texts, Holds m call.inbound.fromAddress.raw text)
    (hphase : phase.Unfinished ∨ ∃ stored, phase = .returned stored) :
    ∀ text ∈ texts, Carried db' call.endpoint.id call.inbound.fromAddress.raw text := by
  intro text htext
  have hkept : call.phase.Unfinished → Carried db' call.endpoint.id call.inbound.fromAddress.raw text :=
    fun hunfinished => (h.stored hunfinished text htext).mono (progress_messages hp)
  cases hp with
  | found m hfind hfound =>
    obtain ⟨key, -, hm⟩ := Option.bind_eq_some_iff.mp hfound
    have hid : m.endpointId = call.endpoint.id := by
      have := List.find?_some hm
      simp only [Bool.decide_and, Bool.and_eq_true, decide_eq_true_eq] at this
      exact this.1
    exact ⟨m, List.mem_of_find?_eq_some hm, hid, hg (hfind ▸ trivial) m hfound text htext⟩
  | missed => rcases hphase with hphase | ⟨stored, hphase⟩ <;> cases hphase
  | threaded _ _ _ hnext =>
    rcases hnext with hnext | rfl
    · rcases hphase with hphase | ⟨stored, rfl⟩
      · exact absurd hphase hnext.not_unfinished
      · exact hnext.elim
    · rcases hphase with hphase | ⟨stored, hphase⟩ <;> cases hphase
  | created conversation supply hcreate =>
    refine ⟨_, List.mem_append_right _ List.mem_cons_self, rfl, rfl, ?_⟩
    exact h.carried text htext
  | carried _ _ m hcreated =>
    exact hkept (by cases hc : call.phase <;> simp_all [PersistPhase.created, PersistPhase.Unfinished])
  | emitted _ _ _ hemit => exact hkept (hemit ▸ trivial)
  | deduplicated _ _ _ hemit => exact hkept (hemit ▸ trivial)
  | reused _ _ hfind => exact hkept (hfind ▸ trivial)
  | lost => rcases hphase with hphase | ⟨stored, hphase⟩ <;> cases hphase

private theorem storing_first (db : Database) {endpoint : Endpoint} {inbound : CanonicalInbound} {texts : List String}
    (h : ∀ text ∈ texts, text.toList <:+: (inbound.content.text.getD "").toList) :
    Storing db (persistCall endpoint inbound) texts := by
  refine ⟨h, fun hphase => ?_⟩
  simp only [persistCall, firstPhase] at hphase
  split at hphase <;> exact hphase.elim

namespace Kept
variable {setup : Setup} {w : World}

theorem start (setup : Setup) : Kept setup .start := by
  constructor <;> simp [World.start]

/-- What grows keeps every task sound. -/
theorem grow (h : Kept setup w) {w' : World} (hgrows : Grows w w') (htasks : w'.tasks = w.tasks)
    (hcovered : ∀ a ∈ w'.accepted, Covered w' a) (hrows : ∀ row ∈ w'.buffer, row.Sound setup ∧ row.id ∈ w'.used)
    (hsingle : ∀ row ∈ w'.buffer, ∀ row' ∈ w'.buffer, row.id = row'.id → row = row') : Kept setup w' :=
  ⟨hcovered, hrows, hsingle, fun c task htask => (h.tasks c task (htasks ▸ htask)).mono hgrows⟩

theorem setTask (h : Kept setup w) (c : Nat) {task : Option Task} (hs : ∀ t, task = some t → t.Sound setup w) :
    Kept setup (w.setTask c task) := by
  refine ⟨h.covered, h.rows, h.single, fun d t ht => ?_⟩
  have hgrows : Grows w (w.setTask c task) := ⟨List.Subset.refl _, List.Subset.refl _, fun _ hrow => .inl hrow⟩
  rcases eq_or_ne d c with rfl | hne
  · exact (hs t (by simpa [World.setTask] using ht)).mono hgrows
  · exact (h.tasks d t (by simpa [World.setTask, hne] using ht)).mono hgrows

theorem accept (h : Kept setup w) {sms : Incoming} (hc : Covered w ⟨sms.endpoint.id, sms.sender, sms.text, sms.isNew⟩) :
    Kept setup (w.accept sms) := by
  have hgrows : Grows w (w.accept sms) := ⟨List.Subset.refl _, List.Subset.refl _, fun _ hrow => .inl hrow⟩
  apply h.grow hgrows rfl _ h.rows h.single
  intro a ha
  rcases List.mem_cons.mp ha with rfl | ha
  · exact hc
  · exact h.covered a ha

theorem ingestNext (h : Kept setup w) (c : Nat) {endpoint : Endpoint} (hendpoint : endpoint ∈ setup.endpoints)
    (canonical : List CanonicalInbound) : Kept setup (Sms.ingestNext setup w c endpoint canonical) := by
  cases canonical with
  | nil => exact h.setTask c fun _ hnone => absurd hnone (by simp)
  | cons inbound rest =>
    have hseen : Kept setup { w with seen := (endpoint.id, inbound.externalId) :: w.seen } :=
      h.grow ⟨List.Subset.refl _, List.Subset.refl _, fun _ hrow => .inl hrow⟩ rfl h.covered h.rows h.single
    apply hseen.setTask
    intro task htask
    obtain rfl := Option.some.inj htask
    split
    · refine ⟨hendpoint, rfl, rfl, storing_first _ fun text htext => ?_⟩
      rw [List.mem_singleton.mp htext]
      exact List.infix_rfl
    · rename_i htext
      refine ⟨hendpoint, ?_⟩
      cases hcontent : (repaired setup.scripts inbound).content.text with
      | none => exact absurd (by simp [Incoming.text, hcontent]) htext
      | some text => simp [Incoming.text, hcontent]

theorem nextGroup (h : Kept setup w) (c : Nat) {groups : List (List PartRow)}
    (hgroups : ∀ g ∈ groups, Snapshot setup w g) : Kept setup (w.setTask c (Sms.nextGroup groups)) := by
  apply h.setTask
  intro task htask
  cases groups with
  | nil => exact absurd htask (by simp [Sms.nextGroup])
  | cons parts groups =>
    obtain rfl := Option.some.inj htask
    exact List.forall_mem_cons.mp hgroups

end Kept

private theorem nextMessage_sound {setup : Setup} {w : World} {now : Nat} {endpoint : Endpoint} {parts : List PartRow}
    {groups : List (List PartRow)} (hparts : Snapshot setup w parts) (hgroups : ∀ g ∈ groups, Snapshot setup w g)
    {pending : List Assembly} (h : Settling w.db endpoint parts pending) :
    (nextMessage now endpoint parts groups pending).Sound setup w := by
  induction pending with
  | nil =>
    refine ⟨⟨hparts, hgroups⟩, fun p hp => ?_⟩
    simpa using h.covered p hp
  | cons assembly pending ih =>
    have hmem := h.mem assembly List.mem_cons_self
    unfold nextMessage
    split
    · rename_i inbound hinbound
      have hbuilt : (∀ p ∈ assembly.parts, inbound.fromAddress.raw = p.sender) ∧
          ∀ text ∈ assembly.parts.map (·.text), text.toList <:+: (inbound.content.text.getD "").toList := by
        match assembly, hinbound with
        | .leftover part, hinbound =>
          obtain rfl := Option.some.inj hinbound
          have hsound := hparts.sound part (hmem List.mem_cons_self)
          simp [Assembly.parts, revive, hsound.sender, hsound.text]
        | .combined (head :: tail), hinbound =>
          obtain rfl := Option.some.inj hinbound
          have hhead := hmem (List.mem_cons_self : head ∈ head :: tail)
          refine ⟨fun p hp => ?_, fun text htext => infix_join htext⟩
          exact (hparts.sound head hhead).sender.trans (hparts.same head hhead p (hmem hp)).2
      refine ⟨⟨hparts, hgroups⟩, ⟨h.endpoint, h.mem, h.covered⟩, fun p hp => (hbuilt.1 p hp).symm, ?_⟩
      exact storing_first _ hbuilt.2
    · rename_i hnone
      apply ih
      have hempty : assembly.parts = [] := by
        match assembly, hnone with
        | .combined [], _ => rfl
      refine ⟨h.endpoint, fun a ha => h.mem a (List.mem_cons_of_mem _ ha), fun p hp => ?_⟩
      simpa [hempty] using h.covered p hp

namespace Kept
variable {setup : Setup} {w w' : World}

theorem persistStep (h : Kept setup w) {call : PersistCall} {smsIds : List String} {supply : Supply}
    {phase : PersistPhase} (hstep : Sms.persistStep w call smsIds supply = some (w', phase)) : Kept setup w' := by
  obtain ⟨db, origins, rfl, hp⟩ := persistStep_eq hstep
  refine h.grow ⟨progress_messages hp, List.Subset.refl _, fun _ hrow => .inl hrow⟩ rfl (fun a ha => ?_) h.rows h.single
  exact (h.covered a ha).imp_right (Carried.mono (progress_messages hp))

theorem persistSms (h : Kept setup w) {c : Nat} {sms : Incoming} {call : PersistCall} {supply : Supply}
    (htask : w.tasks c = some (.persistSms sms call)) (hg : Genuine w (.advance c supply))
    (hs : advanceTask setup w c supply (.persistSms sms call) = some w') : Kept setup w' := by
  obtain ⟨hendpoint, hcalled, hinbound, hstoring⟩ := h.tasks c _ htask
  obtain ⟨⟨w₁, phase⟩, hstep, rfl⟩ := Option.map_eq_some_iff.mp hs
  have hkept := h.persistStep hstep
  obtain ⟨db, origins, rfl, hp⟩ := persistStep_eq hstep
  have hdone := hstoring.progress hp (hg (call, _) (by simp [htask, Task.storing]))
  dsimp only
  split
  · rename_i stored
    have hcarried := hdone (.inr ⟨stored, rfl⟩) sms.text List.mem_cons_self
    rw [hcalled, hinbound] at hcarried
    exact (hkept.accept (.inr hcarried)).ingestNext c hendpoint sms.rest
  · exact hkept.setTask c fun _ hnone => absurd hnone (by simp)
  · apply hkept.setTask
    intro task ht
    obtain rfl := Option.some.inj ht
    exact ⟨hendpoint, hcalled, hinbound, hstoring.carried, fun hphase => hdone (.inl hphase)⟩

theorem storeMessage (h : Kept setup w) {c : Nat} {call : PersistCall} {current : Assembly} {pending : List Assembly}
    {parts : List PartRow} {groups : List (List PartRow)} {supply : Supply}
    (htask : w.tasks c = some (.storeMessage call current pending parts groups)) (hg : Genuine w (.advance c supply))
    (hs : advanceTask setup w c supply (.storeMessage call current pending parts groups) = some w') :
    Kept setup w' := by
  obtain ⟨⟨w₁, phase⟩, hstep, rfl⟩ := Option.map_eq_some_iff.mp hs
  have hkept := h.persistStep hstep
  have hold : (Task.storeMessage call current pending parts groups).Sound setup w₁ :=
    hkept.tasks c _ (by obtain ⟨db, origins, rfl, -⟩ := persistStep_eq hstep; exact htask)
  obtain ⟨-, -, -, hstoring⟩ := h.tasks c _ htask
  obtain ⟨⟨hparts, hgroups⟩, hsettling, hsender, -⟩ := hold
  obtain ⟨db, origins, rfl, hp⟩ := persistStep_eq hstep
  have hdone := hstoring.progress hp (hg (call, _) (by simp [htask, Task.storing]))
  dsimp only
  split
  · rename_i stored
    have hcarried := hdone (.inr ⟨stored, rfl⟩)
    apply hkept.setTask
    intro task ht
    obtain rfl := Option.some.inj ht
    apply nextMessage_sound hparts hgroups
    refine ⟨hsettling.endpoint, fun a ha => hsettling.mem a (List.mem_cons_of_mem _ ha), fun p hp => ?_⟩
    rcases hsettling.covered p hp with hstored | ⟨a, ha, hpa⟩
    · exact .inl hstored
    · rcases List.mem_cons.mp ha with rfl | ha
      · left
        rw [hsettling.endpoint p hp, hsender p hpa]
        exact hcarried p.text (List.mem_map_of_mem hpa)
      · exact .inr ⟨a, ha, hpa⟩
  · exact hkept.nextGroup c hgroups
  · apply hkept.setTask
    intro task ht
    obtain rfl := Option.some.inj ht
    exact ⟨⟨hparts, hgroups⟩, hsettling, hsender, hstoring.carried, fun hphase => hdone (.inl hphase)⟩

theorem createPart (h : Kept setup w) {c : Nat} {sms : Incoming} {supply : Supply}
    (htask : w.tasks c = some (.createPart sms))
    (hs : advanceTask setup w c supply (.createPart sms) = some w') : Kept setup w' := by
  obtain ⟨hendpoint, htext⟩ := h.tasks c _ htask
  simp only [advanceTask, Option.ite_none_left_eq_some, Option.some.injEq] at hs
  obtain ⟨hfresh, rfl⟩ := hs
  have hmem : ∀ row ∈ w.buffer ++ [partRow sms supply], row ∈ w.buffer ∨ row = partRow sms supply := fun row hrow =>
    (List.mem_append.mp hrow).imp_right List.mem_singleton.mp
  have hid : ∀ row ∈ w.buffer, row.id ≠ supply.rowId := fun row hrow heq => hfresh (heq ▸ (h.rows row hrow).2)
  have hkept : Kept setup { w with buffer := w.buffer ++ [partRow sms supply], used := supply.rowId :: w.used } := by
    refine h.grow ⟨List.Subset.refl _, List.subset_cons_self _ _, ?_⟩ rfl ?_ ?_ ?_
    · intro row hrow
      rcases hmem row hrow with hold | rfl
      · exact .inl hold
      · exact .inr hfresh
    · intro a ha
      apply (h.covered a ha).imp_left
      rintro ⟨row, hrow, hkey⟩
      exact ⟨row, List.mem_append_left _ hrow, hkey⟩
    · intro row hrow
      rcases hmem row hrow with hold | rfl
      · exact ⟨(h.rows row hold).1, List.mem_cons_of_mem _ (h.rows row hold).2⟩
      · exact ⟨⟨rfl, htext, sms.endpoint, hendpoint, rfl⟩, List.mem_cons_self⟩
    · intro row hrow row' hrow' heq
      rcases hmem row hrow with hold | rfl <;> rcases hmem row' hrow' with hold' | rfl
      · exact h.single row hold row' hold' heq
      · exact absurd heq (hid row hold)
      · exact absurd heq.symm (hid row' hold')
      · rfl
  refine (hkept.accept (.inl ?_)).ingestNext c hendpoint sms.rest
  exact ⟨partRow sms supply, List.mem_append_right _ List.mem_cons_self, rfl, rfl, rfl⟩

theorem deleteParts (h : Kept setup w) {c : Nat} {parts : List PartRow} {groups : List (List PartRow)}
    (supply : Supply) (htask : w.tasks c = some (.deleteParts parts groups))
    (hs : advanceTask setup w c supply (.deleteParts parts groups) = some w') : Kept setup w' := by
  obtain ⟨⟨hparts, hgroups⟩, hcarried⟩ := h.tasks c _ htask
  obtain rfl := Option.some.inj hs
  have hsub : (w.buffer.filter fun row => decide (∀ p ∈ parts, row.id ≠ p.id)) ⊆ w.buffer := List.filter_subset_self _
  have hgrows : Grows w { w with buffer := w.buffer.filter fun row => decide (∀ p ∈ parts, row.id ≠ p.id) } :=
    ⟨List.Subset.refl _, List.Subset.refl _, fun row hrow => .inl (hsub hrow)⟩
  have hkept : Kept setup { w with buffer := w.buffer.filter fun row => decide (∀ p ∈ parts, row.id ≠ p.id) } := by
    refine h.grow hgrows rfl (fun a ha => ?_) (fun row hrow => h.rows row (hsub hrow))
      fun row hrow row' hrow' => h.single row (hsub hrow) row' (hsub hrow')
    rcases h.covered a ha with ⟨row, hrow, hendpoint, hsender, htext⟩ | hstored
    · by_cases hdeleted : ∀ p ∈ parts, row.id ≠ p.id
      · exact .inl ⟨row, List.mem_filter.mpr ⟨hrow, decide_eq_true hdeleted⟩, hendpoint, hsender, htext⟩
      · -- a deleted row is one of the parts, and those are stored
        simp only [not_forall, not_not] at hdeleted
        obtain ⟨p, hp, hid⟩ := hdeleted
        obtain rfl := hparts.rows p hp row hrow hid
        exact .inr (hendpoint ▸ hsender ▸ htext ▸ hcarried row hp)
    · exact .inr hstored
  exact hkept.nextGroup c fun g hg => (hgroups g hg).mono hgrows

theorem readWaiting (h : Kept setup w) {c : Nat} {sms : Incoming} (supply : Supply)
    (htask : w.tasks c = some (.readWaiting sms))
    (hs : advanceTask setup w c supply (.readWaiting sms) = some w') : Kept setup w' := by
  have hsound := h.tasks c _ htask
  simp only [advanceTask] at hs
  split at hs
  · obtain rfl := Option.some.inj hs
    apply h.setTask
    intro task ht
    obtain rfl := Option.some.inj ht
    refine ⟨hsound.1, rfl, rfl, storing_first _ fun text htext => ?_⟩
    rw [List.mem_singleton.mp htext]
    exact List.infix_rfl
  · split at hs
    · rename_i hwaiting
      obtain rfl := Option.some.inj hs
      obtain ⟨row, hrow, htext⟩ := List.any_eq_true.mp hwaiting
      obtain ⟨hmem, hkey⟩ := List.mem_filter.mp hrow
      obtain ⟨hendpoint, hsender⟩ := of_decide_eq_true hkey
      exact (h.accept (.inl ⟨row, hmem, hendpoint, hsender, of_decide_eq_true htext⟩)).ingestNext c hsound.1 sms.rest
    · obtain rfl := Option.some.inj hs
      apply h.setTask
      intro task ht
      obtain rfl := Option.some.inj ht
      exact hsound

theorem findEndpoint (h : Kept setup w) {c : Nat} {parts : List PartRow} {groups : List (List PartRow)}
    {supply : Supply} (htask : w.tasks c = some (.findEndpoint parts groups))
    (hs : advanceTask setup w c supply (.findEndpoint parts groups) = some w') : Kept setup w' := by
  obtain ⟨hparts, hgroups⟩ := h.tasks c _ htask
  simp only [advanceTask] at hs
  split at hs
  · rename_i endpoint hfound
    obtain rfl := Option.some.inj hs
    obtain ⟨head, hhead, hfind⟩ := Option.bind_eq_some_iff.mp hfound
    apply h.setTask
    intro task ht
    obtain rfl := Option.some.inj ht
    apply nextMessage_sound hparts hgroups
    refine ⟨fun p hp => ?_, fun a ha p hp => mem_assemblies.mpr ⟨a, ha, hp⟩, fun p hp => .inr (mem_assemblies.mp hp)⟩
    have hid : endpoint.id = head.endpointId := by simpa using List.find?_some hfind
    exact (hparts.same p hp head (List.mem_of_mem_head? hhead)).1.trans hid.symm
  · rename_i hnone
    obtain rfl := Option.some.inj hs
    apply h.setTask
    intro task ht
    obtain rfl := Option.some.inj ht
    refine ⟨⟨hparts, hgroups⟩, ?_⟩
    cases parts with
    | nil => exact fun p hp => absurd hp List.not_mem_nil
    | cons head tail =>
      obtain ⟨endpoint, hendpoint, hid⟩ := (hparts.sound head List.mem_cons_self).endpoint
      exact absurd hid (by simpa using List.find?_eq_none.mp hnone endpoint hendpoint)

theorem readBuffer (h : Kept setup w) (c now : Nat) :
    Kept setup (w.setTask c (Sms.nextGroup (readyGroups setup now w.buffer))) := by
  apply h.nextGroup
  intro g hg
  obtain ⟨hsub, hsame⟩ := readyGroups_spec g hg
  exact ⟨fun p hp => (h.rows p (hsub hp)).1, fun p hp => (h.rows p (hsub hp)).2,
    fun p hp row hrow hid => h.single row hrow p (hsub hp) hid, hsame⟩

theorem failed (h : Kept setup w) {c : Nat} {task : Task} (htask : w.tasks c = some task) :
    Kept setup (w.setTask c (failedTask task)) := by
  have hsound := h.tasks c task htask
  cases task with
  | findEndpoint parts groups => exact h.nextGroup c hsound.2
  | storeMessage call current pending parts groups => exact h.nextGroup c hsound.1.2
  | deleteParts parts groups => exact h.nextGroup c hsound.1.2
  | _ => exact h.setTask c fun _ hnone => absurd hnone (by simp [failedTask])

theorem step (h : Kept setup w) {a : Action} (hg : Genuine w a) (hs : Sms.step setup w a = some w') :
    Kept setup w' := by
  cases a with
  | ingest c endpoint canonical =>
    simp only [Sms.step, Option.ite_none_right_eq_some, Option.some.injEq] at hs
    obtain ⟨⟨-, hendpoint⟩, rfl⟩ := hs
    exact h.ingestNext c hendpoint canonical
  | flush c now =>
    simp only [Sms.step, Option.ite_none_right_eq_some, Option.some.injEq] at hs
    obtain ⟨-, rfl⟩ := hs
    apply h.setTask
    intro task ht
    obtain rfl := Option.some.inj ht
    exact trivial
  | advance c supply =>
    obtain ⟨task, htask, hs⟩ := Option.bind_eq_some_iff.mp hs
    cases task with
    | readWaiting sms => exact h.readWaiting supply htask hs
    | createPart sms => exact h.createPart htask hs
    | persistSms sms call => exact h.persistSms htask hg hs
    | readBuffer now => exact Option.some.inj hs ▸ h.readBuffer c now
    | findEndpoint parts groups => exact h.findEndpoint htask hs
    | storeMessage call current pending parts groups => exact h.storeMessage htask hg hs
    | deleteParts parts groups => exact h.deleteParts supply htask hs
  | fail c =>
    obtain ⟨task, htask, rfl⟩ := Option.map_eq_some_iff.mp hs
    exact h.failed htask
  | die c =>
    obtain ⟨task, htask, rfl⟩ := Option.map_eq_some_iff.mp hs
    exact h.setTask c fun _ hnone => absurd hnone (by simp)

end Kept

theorem kept_reachable {setup : Setup} {w : World} (h : (system setup).ReachableUnder Genuine w) : Kept setup w := by
  have hinit : ∀ w, (system setup).init w → Kept setup w := fun w hw => hw ▸ Kept.start setup
  exact h.invariant hinit fun _ _ _ hkept hg hs => hkept.step hg hs

/-- While no external id or concat id names two different things, every accepted SMS stays
in the buffer or inside a stored message of its endpoint and sender. -/
theorem none_lost {setup : Setup} {w : World} (h : (system setup).ReachableUnder Genuine w) : NoneLost w :=
  fun a ha _ => (kept_reachable h).covered a ha

namespace Sample

/-- A set is stored and its rows stay, since the deletion fails; the next flush finds the message
and deletes them. -/
def retried : List Action := buffered first '3' ++ buffered final '4' ++ flushed 8 ++ .fail 0 :: flushed 4

/-- Same text and second as the first segment, from a sender that spells the final one's id. -/
def other : CanonicalInbound :=
  sms "Bank:1793188799000:90be9429985c7b9e|G101:Bank" "a22dd7d3ed4f7407" (segment 'ї')

def collision : List Action :=
  buffered first '3' ++ buffered final '4' ++ flushed 9 ++ buffered other '5' ++ flushed 4

end Sample

/-- The concat id of two segments is also that of a third SMS, whose text is then dropped. -/
theorem sms_lost : ¬ ∀ setup w, (system setup).Reachable w → NoneLost w := by
  intro h
  have hlost : (((system Sample.setup).replay .start Sample.collision).any fun w => !decide (NoneLost w)) = true := by
    decide +kernel
  obtain ⟨w, hrun, hw⟩ := (Option.any_eq_true _ _).mp hlost
  have hkept := h Sample.setup w (System.Reachable.of_replay rfl hrun)
  simp [hkept] at hw

theorem none_lost_retried : ∃ w, (system Sample.setup).replay .start Sample.retried = some w ∧
    w.db.messages.length = 1 ∧ w.buffer.length = 0 ∧ w.accepted.length = 2 ∧ NoneLost w := by
  obtain ⟨hrun, hobey⟩ : ((system Sample.setup).replay .start Sample.retried).map (fun w =>
      (w.db.messages.length, w.buffer.length, w.accepted.length)) = some (1, 0, 2) ∧
        (system Sample.setup).Obeys Genuine .start Sample.retried := by
    decide +kernel
  obtain ⟨w, hw, hlengths⟩ := Option.map_eq_some_iff.mp hrun
  obtain ⟨hmessages, hlengths⟩ := Prod.mk.inj hlengths
  obtain ⟨hbuffer, haccepted⟩ := Prod.mk.inj hlengths
  exact ⟨w, hw, hmessages, hbuffer, haccepted, none_lost (.replay (.init rfl) hobey hw)⟩

end MessagingGateway.Sms
