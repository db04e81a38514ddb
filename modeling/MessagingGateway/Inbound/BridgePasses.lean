import MessagingGateway.Inbound.Bridge

/-! What one pass of the bridge brings about, and what a pass under way does to a shutdown. -/
namespace MessagingGateway.Inbound.Bridge
open Js Transition Provisioning
variable {ι : Type*} {p : Platform} {s t : State ι}

/-- The last row with the number wins. -/
def lastRow (rows : List Endpoint) (phone : String) : Option Endpoint :=
  rows.reverse.find? fun ep => ep.number = some phone

private theorem visit_sockets (base : String) (s : State ι) (ep : Endpoint) (phone : String) :
    ((visit p base s ep).sockets phone).isSome ↔
      (s.sockets phone).isSome ∨ ep.number = some phone ∧ p.accepts (wsUrl base phone) := by
  rw [visit]
  cases hnumber : ep.number with
  | none => simp
  | some number =>
    dsimp only
    rcases eq_or_ne phone number with rfl | hne
    · split
      · rename_i hfree
        rw [openSocket]
        split
        · rename_i haccept
          simp [haccept]
        · rename_i haccept
          simp [haccept]
      · rename_i hlisted
        have hsome : (s.sockets phone).isSome := Option.isSome_iff_ne_none.mpr hlisted
        simp [hsome]
    · have hother : ¬ some number = some phone := fun h => hne (Option.some.inj h).symm
      split
      · rw [openSocket]
        split
        · simp [Function.update_of_ne hne, hother]
        · simp [hother]
      · simp [hother]

private theorem visits_sockets (base : String) (rows : List Endpoint) (s : State ι) (phone : String) :
    ((rows.foldl (visit p base) s).sockets phone).isSome ↔
      (s.sockets phone).isSome ∨ phone ∈ wanted rows ∧ p.accepts (wsUrl base phone) := by
  induction rows generalizing s with
  | nil => simp [wanted]
  | cons ep rows ih =>
    rw [List.foldl_cons, ih, visit_sockets, wanted, wanted]
    simp only [List.mem_filterMap, List.mem_cons, exists_eq_or_imp]
    tauto

private theorem open_endpointIds (base phone : String) (s : State ι) :
    (openSocket p base phone s).endpointIds = s.endpointIds := by
  rw [openSocket]
  split <;> rfl

private theorem visit_endpointIds (base : String) (s : State ι) (ep : Endpoint) (phone : String) :
    (visit p base s ep).endpointIds phone = if ep.number = some phone then some ep.id else s.endpointIds phone := by
  rw [visit]
  cases hnumber : ep.number with
  | none => simp
  | some number =>
    dsimp only
    rw [apply_ite State.endpointIds, open_endpointIds, ite_self]
    dsimp only
    rcases eq_or_ne phone number with rfl | hne
    · simp
    · rw [if_neg fun h => hne (Option.some.inj h).symm]
      exact Function.update_of_ne hne _ _

private theorem visits_endpointIds (base : String) (rows : List Endpoint) (s : State ι) (phone : String) :
    (rows.foldl (visit p base) s).endpointIds phone =
      ((lastRow rows phone).map (·.id)).or (s.endpointIds phone) := by
  induction rows generalizing s with
  | nil => rfl
  | cons ep rows ih =>
    rw [List.foldl_cons, ih, visit_endpointIds, lastRow, lastRow, List.reverse_cons, List.find?_append]
    cases rows.reverse.find? fun ep => ep.number = some phone with
    | some last => rfl
    | none =>
      by_cases hnumber : ep.number = some phone
      · simp [hnumber]
      · simp [hnumber]

private theorem applyRows_sockets (base : String) (rows : List Endpoint) (s : State ι) (phone : String) :
    ((applyRows p base rows s).sockets phone).isSome ↔
      phone ∈ wanted rows ∧ ((s.sockets phone).isSome ∨ p.accepts (wsUrl base phone)) := by
  rw [applyRows, drop]
  dsimp only
  by_cases hwanted : phone ∈ wanted rows
  · simp only [hwanted, not_true_eq_false, decide_false, Bool.false_eq_true, if_false, true_and]
    rw [visits_sockets]
    simp [hwanted]
  · simp [hwanted]

variable [DecidableEq ι]

/-- One undisturbed pass: afterwards exactly the linked and enabled numbers of the account have a
socket that is open, and their frames go to the last row that has the number. -/
theorem pass_settles (h : (system p).Reachable s) {i : ι} {account : TransportAccount}
    (haccount : findAccount s.accounts = some account) (haccepts : ∀ phone, p.accepts (wsUrl (p.base account) phone))
    (hrun : (system p).replay s [.start i, .readAccount i, .readRows i, .apply i] = some t) (phone : String) :
    ((∃ w c, t.conns w = some c ∧ c.phone = phone ∧ c.link = .open) ↔
      phone ∈ wanted (findRows account s.endpoints)) ∧
    ∀ ep, lastRow (findRows account s.endpoints) phone = some ep → t.endpointIds phone = some ep.id := by
  have hsockets := reachable_sockets (h.replay (System.obeys_of_forall (fun _ _ _ => trivial) s) hrun)
  obtain ⟨s₁, h₁, hrun⟩ := Option.bind_eq_some_iff.mp hrun
  obtain ⟨s₂, h₂, hrun⟩ := Option.bind_eq_some_iff.mp hrun
  obtain ⟨s₃, h₃, hrun⟩ := Option.bind_eq_some_iff.mp hrun
  obtain ⟨s₄, h₄, hrun⟩ := Option.bind_eq_some_iff.mp hrun
  obtain rfl := Option.some.inj hrun
  obtain ⟨-, rfl⟩ := start_inv (p := p) h₁
  obtain ⟨-, rfl⟩ := readAccount_inv (p := p) h₂
  obtain ⟨account₃, hpass₃, rfl⟩ := readRows_inv (p := p) h₃
  obtain ⟨account₄, rows, hpass₄, rfl⟩ := apply_inv (p := p) h₄
  -- the pass carries what it has read
  rw [haccount] at hpass₃
  obtain rfl : account = account₃ := by simpa using hpass₃
  obtain ⟨rfl, rfl⟩ : account = account₄ ∧ findRows account s.endpoints = rows := by simpa using hpass₄
  have hlisted := fun u : State ι => applyRows_sockets (p := p) (p.base account) (findRows account s.endpoints) u
  constructor
  · constructor
    · rintro ⟨w, c, hc, rfl, hopen⟩
      have hsome := Option.isSome_iff_exists.mpr ⟨w, hsockets.single w c hc hopen⟩
      exact ((hlisted _ _).mp hsome).1
    · intro hwanted
      obtain ⟨w, hw⟩ := Option.isSome_iff_exists.mp ((hlisted _ phone).mpr ⟨hwanted, Or.inr (haccepts phone)⟩)
      obtain ⟨url, hurl⟩ := hsockets.listed phone w hw
      exact ⟨w, _, hurl, rfl, rfl⟩
  · intro ep hep
    rw [applyRows, drop]
    dsimp only
    rw [visits_endpointIds, hep]
    rfl

theorem pass_settles_line : ∃ t : State Unit,
    ((∃ w c, t.conns w = some c ∧ c.phone = "+380671234567" ∧ c.link = .open) ↔
      "+380671234567" ∈ wanted (findRows Sample.account Sample.empty.endpoints)) ∧
    ∀ ep, lastRow (findRows Sample.account Sample.empty.endpoints) "+380671234567" = some ep →
      t.endpointIds "+380671234567" = some ep.id := by
  obtain ⟨t, ht⟩ : ∃ t, (system Sample.platform).replay Sample.empty Sample.pass = some t := ⟨_, rfl⟩
  exact ⟨t, pass_settles (.init Sample.empty_init) rfl (fun _ => rfl) ht "+380671234567"⟩

/-- After the shutdown no socket is open. -/
def Quiet (s : State ι) : Prop := s.stopping → ∀ w c, s.conns w = some c → c.link ≠ .open

/-- A pass that was past its first check when the shutdown came finishes after it and finds a
number it can open a socket for. -/
def Outlives (p : Platform) (s : State ι) : Action ι → Prop
  | .apply i => s.stopping ∧ ∃ account rows, s.passes i = some (.rows account rows) ∧
      ∃ phone ∈ wanted rows, p.accepts (wsUrl (p.base account) phone)
  | _ => False

omit [DecidableEq ι] in
private theorem quiet_iff (h : Sockets s) : Quiet s ↔ (s.stopping → ∀ phone, s.sockets phone = none) := by
  constructor
  · intro hquiet hstop phone
    rw [Option.eq_none_iff_forall_ne_some]
    intro w hw
    obtain ⟨url, hurl⟩ := h.listed phone w hw
    exact hquiet hstop w _ hurl rfl
  · intro hnone hstop w c hc hopen
    exact absurd ((hnone hstop c.phone).symm.trans (h.single w c hc hopen)) (by simp)

omit [DecidableEq ι] in
private theorem visits_stopping (base : String) (rows : List Endpoint) (s : State ι) :
    (rows.foldl (visit p base) s).stopping = s.stopping := by
  induction rows generalizing s with
  | nil => rfl
  | cons ep rows ih =>
    rw [List.foldl_cons, ih, visit]
    cases ep.number with
    | none => rfl
    | some phone =>
      dsimp only
      split
      · rw [openSocket]
        split <;> rfl
      · rfl

/-- A pass leaves a stopped bridge quiet exactly when it opens nothing. -/
theorem apply_quiet {i : ι} (hi : Sockets s) (hquiet : Quiet s) (hs : step p s (.apply i) = some t) :
    Quiet t ↔ ¬ Outlives p s (.apply i) := by
  have ht := sockets_step hi hs
  obtain ⟨account, rows, hpass, rfl⟩ := apply_inv hs
  rw [quiet_iff ht, Outlives]
  have hstopping : (applyRows p (p.base account) rows { s with passes := Function.update s.passes i none }).stopping =
      s.stopping := visits_stopping _ _ _
  have hlisted := applyRows_sockets (p := p) (p.base account) rows { s with passes := Function.update s.passes i none }
  rw [hstopping]
  constructor
  · rintro hnone ⟨hstop, account', rows', hpass', phone, hwanted, haccept⟩
    obtain ⟨rfl, rfl⟩ := Pass.rows.inj (Option.some.inj (hpass.symm.trans hpass'))
    have hsome := (hlisted phone).mpr ⟨hwanted, Or.inr haccept⟩
    rw [hnone hstop phone] at hsome
    exact absurd hsome (by simp)
  · intro hsafe hstop phone
    have hclear := (quiet_iff hi).mp hquiet hstop phone
    rw [← Option.not_isSome_iff_eq_none, hlisted phone]
    rintro ⟨hwanted, hsome | haccept⟩
    · exact absurd (hclear ▸ hsome) (by simp)
    · exact hsafe ⟨hstop, account, rows, hpass, phone, hwanted, haccept⟩

/-- In every schedule the bridge stays quiet after its shutdown exactly when no pass outlives it. -/
theorem shutdown_iff {as : List (Action ι)} (h : (system p).init s) :
    (system p).Along Quiet s as ↔ (system p).Obeys (fun s a => ¬ Outlives p s a) s as := by
  have hsockets := reachable_sockets (.init h)
  have hquiet : Quiet s := fun hstop => absurd (h.2.2.1.symm.trans hstop) (by simp)
  refine System.along_iff_obeys (I := Sockets) (fun s a t hi hquiet hg hs => ⟨sockets_step hi hs, ?_⟩)
    (fun s a t hi hquiet hg hs => ?_) hsockets hquiet as
  · replace hs : step p s a = some t := hs
    have ht := sockets_step hi hs
    have hclear := (quiet_iff hi).mp hquiet
    cases a with
    | apply i => exact (apply_quiet hi hquiet hs).mpr hg
    | change accounts endpoints =>
      obtain rfl := Option.some.inj hs
      exact hquiet
    | start i =>
      obtain ⟨-, rfl⟩ := start_inv hs
      exact hquiet
    | readAccount i =>
      obtain ⟨-, rfl⟩ := readAccount_inv hs
      exact hquiet
    | readRows i =>
      obtain ⟨account, -, rfl⟩ := readRows_inv hs
      exact hquiet
    | fail i =>
      obtain rfl := Option.some.inj hs
      exact hquiet
    | destroy =>
      obtain rfl := Option.some.inj hs
      exact (quiet_iff ht).mpr fun _ phone => rfl
    | closed w =>
      obtain ⟨c, hc, rfl⟩ := closed_inv hs
      refine (quiet_iff ht).mpr fun hstop phone => ?_
      rw [closed]
      dsimp only
      split
      · rcases eq_or_ne phone c.phone with rfl | hne
        · exact Function.update_self _ _ _
        · exact (Function.update_of_ne hne _ _).trans (hclear hstop phone)
      · exact hclear hstop phone
    | message w text =>
      obtain ⟨c, -, rfl⟩ := message_inv hs
      obtain ⟨ingested, heq, -⟩ := receive_eq (p := p) s c text
      rw [heq]
      exact hquiet
  · cases a with
    | apply i => exact fun ht => hg ((apply_quiet hi hquiet hs).mp ht)
    | _ => exact absurd not_false hg

/-- The shutdown comes between the reads of a pass and its last step. -/
theorem shutdown_iff_overtaken : (system Sample.platform).Along Quiet Sample.empty
      [.start (), .readAccount (), .readRows (), .destroy, .apply ()] ↔
    (system Sample.platform).Obeys (fun s a => ¬ Outlives Sample.platform s a) Sample.empty
      [.start (), .readAccount (), .readRows (), .destroy, .apply ()] :=
  shutdown_iff Sample.empty_init

end MessagingGateway.Inbound.Bridge
