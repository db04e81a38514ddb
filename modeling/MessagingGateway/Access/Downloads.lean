import MessagingGateway.Access.Guards
import MessagingGateway.Transition.Observed

/-! Runs of logins, tokens, links and downloads. A download is let in by its guard in one step
and reads the file in a later one. -/
namespace MessagingGateway.Access
open Js Transition
variable {ι : Type*}

/-- A download that its guard let in. -/
structure Admitted where
  id : String
  pass : Pass
  admittedAt : TimeValue

structure Download where
  admitted : Admitted
  file : Attachment

/-- The rows, the downloads between their two steps, and what has been given out so far. -/
structure State (ι : Type*) extends Store where
  inFlight : ι → Option Admitted
  logins : List User
  generated : List (String × User)
  links : List (String × Number × User)
  served : List Download

inductive Action (ι : Type*) where
  | tick (now : TimeValue)
  | bootstrapAdmin (id passwordHash : String)
  | login (sid username password : String)
  | logout (r : Request)
  | lapse (sid : String)
  | generate (r : Request) (id name : String) (bytes : List UInt8)
  | revoke (r : Request) (id : String)
  | store (file : Attachment)
  | attach (id messageId : String)
  | expire (id : String)
  | delete (r : Request) (id : String)
  | sign (r : Request)
  | call (r : Request)
  | canActivate (i : ι) (r : Request)
  | serve (i : ι)

def hexText (bytes : List UInt8) : String :=
  String.ofList (bytes.flatMap fun b => [Nat.digitChar (b.toNat / 16), Nat.digitChar (b.toNat % 16)])

def setRevoked (now : TimeValue) (id : String) (row : GlobalApiToken) : GlobalApiToken :=
  if row.id = id then { row with revokedAt := some now } else row

def setUsed (now : TimeValue) (id : String) (row : GlobalApiToken) : GlobalApiToken :=
  if row.id = id then { row with lastUsedAt := some now } else row

def setDeleted (now : TimeValue) (id : String) (file : Attachment) : Attachment :=
  if file.id = id then { file with deletedAt := some now } else file

def setMessage (messageId id : String) (file : Attachment) : Attachment :=
  if file.id = id then { file with messageId := some messageId } else file

section
variable (d : Digests) (env : Settings)

/-- Only an empty table gets its first user, and only this one is ever made. -/
def bootstrapAdmin (s : State ι) (id passwordHash : String) : Option (State ι) :=
  if s.users "admin" = none then
    some { s with users := Function.update s.users "admin" (some { id, username := "admin", passwordHash }) }
  else none

def login (s : State ι) (sid username password : String) : Option (State ι) :=
  (validatePassword d s.toStore username password).map fun user => { s with
    sessions := Function.update s.sessions sid (some user)
    logins := user :: s.logins }

/-- `ApiTokensService.generate`: the row keeps the digest, the caller gets the token. -/
def generate (s : State ι) (user : User) (id name : String) (bytes : List UInt8) : State ι :=
  let raw := "umg_" ++ hexText bytes
  { s with
    tokens := ⟨id, name, d.sha256 raw, none, none⟩ :: s.tokens
    generated := (raw, user) :: s.generated }

def endSession (s : State ι) (sid : String) : State ι := { s with sessions := Function.update s.sessions sid none }

/-- The routes that take a session or a token enter the use of a token. -/
def call (s : State ι) : Pass → State ι
  | .token row => { s with tokens := s.tokens.map (setUsed s.now row.id) }
  | _ => s

/-- Who is signed in under which session by the logins and logouts alone, and every admission with
the user who was signed in under the session it brought. -/
structure Trail where
  signedIn : String → Option User
  admissions : List (Admitted × Option User)

/-- What an admission rests on: a session whose user was signed in, a token that a login made and
nobody had revoked, or a link to this very file that a login made and that had not run out. -/
def Justified (s : State ι) (trail : Trail) (a : Admitted) : Prop :=
  match a.pass with
  | .session user => (∃ who, (a, who) ∈ trail.admissions) ∧ ∀ who, (a, who) ∈ trail.admissions → who = some user
  | .token row => (∃ made ∈ s.generated, row.tokenHash = d.sha256 made.1 ∧ made.2 ∈ s.logins) ∧
      ∀ row' ∈ s.tokens, row'.id = row.id → ∀ t, row'.revokedAt = some t → a.admittedAt.ms ≤ t.ms
  | .link exp => ∃ user ∈ s.logins, ∃ second : ℤ, (a.id, exp, user) ∈ s.links ∧ exp = .finite second ∧
      a.admittedAt.ms ≤ second * 1000

/-- What any step leaves: given out stays given out, and a revocation is never taken back. -/
structure Later (s t : State ι) : Prop where
  now : s.now.ms ≤ t.now.ms
  logins : s.logins ⊆ t.logins
  generated : s.generated ⊆ t.generated
  links : s.links ⊆ t.links
  revoked : ∀ row' ∈ t.tokens, ∀ time : TimeValue, row'.revokedAt = some time →
    s.now.ms ≤ time.ms ∨ ∃ row ∈ s.tokens, row.id = row'.id ∧ row.revokedAt = some time

variable [DecidableEq ι]

def serve (s : State ι) (i : ι) (a : Admitted) : State ι :=
  let done := { s with inFlight := Function.update s.inFlight i none }
  match findAttachment s.toStore a.id with
  | .ok file => { done with served := ⟨a, file⟩ :: s.served }
  | .error _ => done

/-- A request that its guard turns away changes nothing and is no step. -/
def step (s : State ι) : Action ι → Option (State ι)
  | .tick now => if s.now.ms ≤ now.ms then some { s with now } else none
  | .bootstrapAdmin id passwordHash => bootstrapAdmin s id passwordHash
  | .login sid username password => login d s sid username password
  | .logout r => (SessionGuard s.toStore r).toOption.bind fun _ => r.session.map (endSession s)
  | .lapse sid => some (endSession s sid)
  | .generate r id name bytes =>
    if s.tokens.any (·.id = id) then none
    else (SessionGuard s.toStore r).toOption.map fun user => generate d s user id name bytes
  | .revoke r id => (SessionGuard s.toStore r).toOption.map fun _ =>
      { s with tokens := s.tokens.map (setRevoked s.now id) }
  | .store file =>
    if s.attachments.any (·.id = file.id) then none else some { s with attachments := file :: s.attachments }
  | .attach id messageId => some { s with attachments := s.attachments.map (setMessage messageId id) }
  | .expire id => some { s with attachments := s.attachments.map (setDeleted s.now id) }
  | .delete r id => (SessionGuard s.toStore r).toOption.bind fun _ =>
      (findDeletable s.toStore id).toOption.map fun _ =>
        { s with attachments := s.attachments.filter (·.id ≠ id) }
  | .sign r => (SessionGuard s.toStore r).toOption.bind fun user =>
      (createSignedUrl d env s.toStore r.id).toOption.map fun url =>
        { s with links := (url.id, url.exp, user) :: s.links }
  | .call r => (SessionOrTokenGuard d s.toStore r).toOption.map (call s)
  | .canActivate i r =>
    if s.inFlight i = none then (MediaAccessGuard d env s.toStore r).toOption.map fun pass =>
      { s with inFlight := Function.update s.inFlight i (some ⟨r.id, pass, s.now⟩) }
    else none
  | .serve i => (s.inFlight i).map (serve s i)

def system : System (State ι) (Action ι) where
  init s := (∀ sid, s.sessions sid = none) ∧ (∀ i, s.inFlight i = none) ∧ s.users "admin" = none ∧
    s.tokens = [] ∧ s.attachments = [] ∧ s.logins = [] ∧ s.generated = [] ∧ s.links = [] ∧ s.served = []
  step := step d env

/-- A login signs in, a logout and the end of a session sign out, and an admission is noted. -/
def Trail.next (s : State ι) (a : Action ι) (t : State ι) (trail : Trail) : Trail :=
  match a with
  | .login sid username _ => { trail with
      signedIn := Function.update trail.signedIn sid ((s.users username).map (·.toUser)) }
  | .logout r => { trail with
      signedIn := r.session.elim trail.signedIn fun sid => Function.update trail.signedIn sid none }
  | .lapse sid => { trail with signedIn := Function.update trail.signedIn sid none }
  | .canActivate i r => { trail with
      admissions := (t.inFlight i).toList.map (·, r.session.bind trail.signedIn) ++ trail.admissions }
  | _ => trail

def watched : System (State ι × Trail) (Action ι) := (system d env).observed ⟨fun _ => none, []⟩ Trail.next

/-- Nobody brings a signature that verifies and was never made. -/
def Unforged (s : State ι) : Action ι → Prop
  | .canActivate _ r => ∀ exp, verifiedLink d env r = some exp →
      ∃ link ∈ s.links, signedText link.1 link.2.1 = signedText r.id exp
  | _ => True

end

section
variable {d : Digests} {env : Settings} {s t : State ι} {trail trail' : Trail}

@[simp] theorem setUsed_id (now : TimeValue) (id : String) (row : GlobalApiToken) :
    (setUsed now id row).id = row.id := by
  rw [setUsed]
  split <;> rfl

@[simp] theorem setUsed_tokenHash (now : TimeValue) (id : String) (row : GlobalApiToken) :
    (setUsed now id row).tokenHash = row.tokenHash := by
  rw [setUsed]
  split <;> rfl

@[simp] theorem setUsed_revokedAt (now : TimeValue) (id : String) (row : GlobalApiToken) :
    (setUsed now id row).revokedAt = row.revokedAt := by
  rw [setUsed]
  split <;> rfl

@[simp] theorem setRevoked_id (now : TimeValue) (id : String) (row : GlobalApiToken) :
    (setRevoked now id row).id = row.id := by
  rw [setRevoked]
  split <;> rfl

@[simp] theorem setRevoked_tokenHash (now : TimeValue) (id : String) (row : GlobalApiToken) :
    (setRevoked now id row).tokenHash = row.tokenHash := by
  rw [setRevoked]
  split <;> rfl

private theorem toOption_ok {α ε : Type*} {x : Except ε α} {a : α} (h : x.toOption = some a) : x = .ok a := by
  cases x with
  | error e => exact absurd h (by simp [Except.toOption])
  | ok b => rw [Option.some.inj h]

/-- The trail has the sessions, and whoever was admitted by one was signed in under it. -/
structure Watched (s : State ι) (trail : Trail) : Prop where
  sessions : s.sessions = trail.signedIn
  admissions : ∀ a who, (a, who) ∈ trail.admissions → ∀ user, a.pass = .session user → who = some user

/-- What is given out later justifies all that was justified before. -/
theorem Justified.later {a : Admitted} (h : Justified d s trail a) (hnow : a.admittedAt.ms ≤ s.now.ms)
    (hlater : Later s t) (hkept : trail.admissions ⊆ trail'.admissions)
    (hwatched : Watched t trail') : Justified d t trail' a := by
  obtain ⟨id, pass, admittedAt⟩ := a
  cases pass with
  | session user =>
    obtain ⟨⟨who, hwho⟩, -⟩ := h
    exact ⟨⟨who, hkept hwho⟩, fun who hwho => hwatched.admissions _ who hwho user rfl⟩
  | token row =>
    obtain ⟨⟨made, hmade, hhash, hlogin⟩, hrevoked⟩ := h
    refine ⟨⟨made, hlater.generated hmade, hhash, hlater.logins hlogin⟩, ?_⟩
    intro row' hrow hid time htime
    rcases hlater.revoked row' hrow time htime with hle | ⟨old, hold, hsame, hat⟩
    · exact hnow.trans hle
    · exact hrevoked old hold (hsame.trans hid) time hat
  | link exp =>
    obtain ⟨user, hlogin, second, hlink, hexp, hle⟩ := h
    exact ⟨user, hlater.logins hlogin, second, hlater.links hlink, hexp, hle⟩

/-- Sessions, tokens and links come from logins, and a token's row is known by its id. -/
structure Rooted (d : Digests) (s : State ι) : Prop where
  sessions : ∀ sid user, s.sessions sid = some user → user ∈ s.logins
  ids : ∀ row ∈ s.tokens, ∀ row' ∈ s.tokens, row.id = row'.id → row = row'
  rows : ∀ row ∈ s.tokens, ∃ made ∈ s.generated, row.tokenHash = d.sha256 made.1
  generated : ∀ made ∈ s.generated, made.2 ∈ s.logins
  links : ∀ link ∈ s.links, link.2.2 ∈ s.logins ∧ ∃ second : ℤ, |second| < 2 ^ 53 ∧
    link.2.1 = .finite second ∧ link.2.1.times 1000 = .finite ((second * 1000 : ℤ) : ℚ)

private theorem SessionGuard_login (h : Rooted d s) {r : Request} {user : User}
    (hguard : SessionGuard s.toStore r = .ok user) : user ∈ s.logins := by
  rw [SessionGuard] at hguard
  cases hsession : sessionUser s.toStore r with
  | none =>
    rw [hsession] at hguard
    exact absurd hguard (by simp)
  | some found =>
    rw [hsession] at hguard
    obtain rfl := Except.ok.inj hguard
    obtain ⟨sid, -, hsid⟩ := Option.bind_eq_some_iff.mp hsession
    exact h.sessions sid found hsid

/-- Rewriting rows in place, id and digest untouched. -/
theorem rooted_map {f : GlobalApiToken → GlobalApiToken} (h : Rooted d s) (hid : ∀ row, (f row).id = row.id)
    (hhash : ∀ row, (f row).tokenHash = row.tokenHash) : Rooted d { s with tokens := s.tokens.map f } := by
  refine ⟨h.sessions, ?_, ?_, h.generated, h.links⟩
  · intro row hrow row' hrow' hsame
    obtain ⟨old, hold, rfl⟩ := List.mem_map.mp hrow
    obtain ⟨old', hold', rfl⟩ := List.mem_map.mp hrow'
    rw [hid, hid] at hsame
    rw [h.ids old hold old' hold' hsame]
  · intro row hrow
    obtain ⟨old, hold, rfl⟩ := List.mem_map.mp hrow
    rw [hhash]
    exact h.rows old hold

private theorem rooted_generate (h : Rooted d s) {user : User} (hlogin : user ∈ s.logins) {id : String} (name : String)
    (bytes : List UInt8) (hfresh : ∀ row ∈ s.tokens, row.id ≠ id) : Rooted d (generate d s user id name bytes) := by
  refine ⟨h.sessions, ?_, ?_, ?_, h.links⟩
  · intro row hrow row' hrow' hsame
    rcases List.mem_cons.mp hrow with rfl | hrow <;> rcases List.mem_cons.mp hrow' with rfl | hrow'
    · rfl
    · exact absurd hsame.symm (hfresh row' hrow')
    · exact absurd hsame (hfresh row hrow)
    · exact h.ids row hrow row' hrow' hsame
  · intro row hrow
    rcases List.mem_cons.mp hrow with rfl | hrow
    · exact ⟨_, List.mem_cons_self, rfl⟩
    · obtain ⟨made, hmade, hhash⟩ := h.rows row hrow
      exact ⟨made, List.mem_cons_of_mem _ hmade, hhash⟩
  · intro made hmade
    rcases List.mem_cons.mp hmade with rfl | hmade
    · exact hlogin
    · exact h.generated made hmade

variable [DecidableEq ι]

/-- All that a step can do to the credentials and the downloads. -/
inductive Effect (d : Digests) (env : Settings) (s : State ι) : Action ι → State ι → Prop
  | quiet {a : Action ι} {t : State ι} (now : s.now.ms ≤ t.now.ms)
      (sessions : ∀ sid user, t.sessions sid = some user → s.sessions sid = some user) (tokens : t.tokens = s.tokens)
      (logins : t.logins = s.logins) (generated : t.generated = s.generated) (links : t.links = s.links)
      (inFlight : t.inFlight = s.inFlight) (served : t.served = s.served) : Effect d env s a t
  | login {a : Action ι} (sid : String) (user : User) : Effect d env s a { s with
      sessions := Function.update s.sessions sid (some user), logins := user :: s.logins }
  | generate {r : Request} {user : User} {id name : String} {bytes : List UInt8}
      (guard : SessionGuard s.toStore r = .ok user) (fresh : ∀ row ∈ s.tokens, row.id ≠ id) :
      Effect d env s (.generate r id name bytes) (generate d s user id name bytes)
  | rewrite {a : Action ι} {f : GlobalApiToken → GlobalApiToken} (id : ∀ row, (f row).id = row.id)
      (hash : ∀ row, (f row).tokenHash = row.tokenHash)
      (revoked : ∀ row time, (f row).revokedAt = some time → time = s.now ∨ row.revokedAt = some time)
      (kept : ∀ row, (f row).revokedAt = none → row.revokedAt = none) :
      Effect d env s a { s with tokens := s.tokens.map f }
  | sign {r : Request} {user : User} {url : SignedUrl} (guard : SessionGuard s.toStore r = .ok user)
      (made : createSignedUrl d env s.toStore r.id = .ok url) :
      Effect d env s (.sign r) { s with links := (url.id, url.exp, user) :: s.links }
  | canActivate {i : ι} {r : Request} {pass : Pass} (guard : MediaAccessGuard d env s.toStore r = .ok pass) :
      Effect d env s (.canActivate i r) { s with inFlight := Function.update s.inFlight i (some ⟨r.id, pass, s.now⟩) }
  | serve {i : ι} {w : Admitted} {served : List Download} (admitted : s.inFlight i = some w)
      (new : ∀ v ∈ served, v ∈ s.served ∨ v.admitted = w ∧ v.file.id = w.id ∧ v.file.deletedAt = none) :
      Effect d env s (.serve i) { s with inFlight := Function.update s.inFlight i none, served }

private theorem update_none {α β : Type*} [DecidableEq α] {f : α → Option β} {a x : α} {y : β}
    (h : Function.update f a none x = some y) : f x = some y := by
  rcases eq_or_ne x a with rfl | hne
  · exact absurd h (by simp)
  · rwa [Function.update_of_ne hne] at h

private theorem effect_call (a : Action ι) (pass : Pass) : Effect d env s a (call s pass) := by
  cases pass with
  | token row =>
    exact .rewrite (setUsed_id _ _) (setUsed_tokenHash _ _)
      (fun row time h => Or.inr (setUsed_revokedAt _ _ _ ▸ h)) fun row h => setUsed_revokedAt _ _ _ ▸ h
  | session user => exact .quiet le_rfl (fun _ _ h => h) rfl rfl rfl rfl rfl rfl
  | link exp => exact .quiet le_rfl (fun _ _ h => h) rfl rfl rfl rfl rfl rfl

private theorem effect_serve {i : ι} {w : Admitted} (hw : s.inFlight i = some w) :
    Effect d env s (.serve i) (serve s i w) := by
  rw [serve]
  dsimp only
  cases hfind : findAttachment s.toStore w.id with
  | error e => exact .serve hw fun v hv => Or.inl hv
  | ok file =>
    refine .serve hw fun v hv => ?_
    rcases List.mem_cons.mp hv with rfl | hv
    · obtain ⟨-, hid, hlive⟩ := findAttachment_ok hfind
      exact Or.inr ⟨rfl, hid, hlive⟩
    · exact Or.inl hv

theorem step_effect {a : Action ι} (h : step d env s a = some t) : Effect d env s a t := by
  cases a with
  | tick now =>
    obtain ⟨hle, h⟩ := Option.ite_none_right_eq_some.mp h
    obtain rfl := Option.some.inj h
    exact .quiet hle (fun _ _ h => h) rfl rfl rfl rfl rfl rfl
  | bootstrapAdmin id passwordHash =>
    obtain ⟨-, h⟩ := Option.ite_none_right_eq_some.mp h
    obtain rfl := Option.some.inj h
    exact .quiet le_rfl (fun _ _ h => h) rfl rfl rfl rfl rfl rfl
  | login sid username password =>
    obtain ⟨user, -, rfl⟩ := Option.map_eq_some_iff.mp h
    exact .login sid user
  | logout r =>
    obtain ⟨user, -, h⟩ := Option.bind_eq_some_iff.mp h
    obtain ⟨sid, -, rfl⟩ := Option.map_eq_some_iff.mp h
    exact .quiet le_rfl (fun _ _ h => update_none h) rfl rfl rfl rfl rfl rfl
  | lapse sid =>
    obtain rfl := Option.some.inj h
    exact .quiet le_rfl (fun _ _ h => update_none h) rfl rfl rfl rfl rfl rfl
  | generate r id name bytes =>
    obtain ⟨hfresh, h⟩ := Option.ite_none_left_eq_some.mp h
    obtain ⟨user, hguard, rfl⟩ := Option.map_eq_some_iff.mp h
    exact .generate (toOption_ok hguard) (by simpa using hfresh)
  | revoke r id =>
    obtain ⟨user, -, rfl⟩ := Option.map_eq_some_iff.mp h
    refine .rewrite (setRevoked_id _ _) (setRevoked_tokenHash _ _) (fun row time htime => ?_) fun row hnone => ?_
    · rw [setRevoked] at htime
      split at htime
      · exact Or.inl (Option.some.inj htime).symm
      · exact Or.inr htime
    · rw [setRevoked] at hnone
      split at hnone
      · exact absurd hnone (by simp)
      · exact hnone
  | store file =>
    obtain ⟨-, h⟩ := Option.ite_none_left_eq_some.mp h
    obtain rfl := Option.some.inj h
    exact .quiet le_rfl (fun _ _ h => h) rfl rfl rfl rfl rfl rfl
  | attach id messageId =>
    obtain rfl := Option.some.inj h
    exact .quiet le_rfl (fun _ _ h => h) rfl rfl rfl rfl rfl rfl
  | expire id =>
    obtain rfl := Option.some.inj h
    exact .quiet le_rfl (fun _ _ h => h) rfl rfl rfl rfl rfl rfl
  | delete r id =>
    obtain ⟨user, -, h⟩ := Option.bind_eq_some_iff.mp h
    obtain ⟨file, -, rfl⟩ := Option.map_eq_some_iff.mp h
    exact .quiet le_rfl (fun _ _ h => h) rfl rfl rfl rfl rfl rfl
  | sign r =>
    obtain ⟨user, hguard, h⟩ := Option.bind_eq_some_iff.mp h
    obtain ⟨url, hurl, rfl⟩ := Option.map_eq_some_iff.mp h
    exact .sign (toOption_ok hguard) (toOption_ok hurl)
  | call r =>
    obtain ⟨pass, -, rfl⟩ := Option.map_eq_some_iff.mp h
    exact effect_call _ pass
  | canActivate i r =>
    obtain ⟨-, h⟩ := Option.ite_none_right_eq_some.mp h
    obtain ⟨pass, hguard, rfl⟩ := Option.map_eq_some_iff.mp h
    exact .canActivate (toOption_ok hguard)
  | serve i =>
    obtain ⟨w, hw, rfl⟩ := Option.map_eq_some_iff.mp h
    exact effect_serve hw

omit [DecidableEq ι] in
private theorem validatePassword_user {username password : String} {user : User}
    (h : validatePassword d s.toStore username password = some user) : (s.users username).map (·.toUser) =
      some user := by
  unfold validatePassword at h
  split at h
  · rename_i found hfound
    obtain ⟨-, h⟩ := Option.ite_none_right_eq_some.mp h
    rw [hfound, Option.map_some, h]
  · cases h

/-- The sessions of the model change with the logins and logouts, as the trail has them. -/
theorem sessions_step {a : Action ι} (h : s.sessions = trail.signedIn) (hs : step d env s a = some t) :
    t.sessions = (Trail.next s a t trail).signedIn := by
  cases a with
  | login sid username password =>
    obtain ⟨user, hvalid, rfl⟩ := Option.map_eq_some_iff.mp hs
    simp only [Trail.next, validatePassword_user hvalid, h]
  | logout r =>
    obtain ⟨user, -, hs⟩ := Option.bind_eq_some_iff.mp hs
    obtain ⟨sid, hsid, rfl⟩ := Option.map_eq_some_iff.mp hs
    simp only [Trail.next, hsid, Option.elim_some, endSession, h]
  | lapse sid =>
    obtain rfl := Option.some.inj hs
    simp only [Trail.next, endSession, h]
  | tick now =>
    obtain ⟨-, hs⟩ := Option.ite_none_right_eq_some.mp hs
    obtain rfl := Option.some.inj hs
    exact h
  | bootstrapAdmin id passwordHash =>
    obtain ⟨-, hs⟩ := Option.ite_none_right_eq_some.mp hs
    obtain rfl := Option.some.inj hs
    exact h
  | generate r id name bytes =>
    obtain ⟨-, hs⟩ := Option.ite_none_left_eq_some.mp hs
    obtain ⟨user, -, rfl⟩ := Option.map_eq_some_iff.mp hs
    exact h
  | revoke r id =>
    obtain ⟨user, -, rfl⟩ := Option.map_eq_some_iff.mp hs
    exact h
  | store file =>
    obtain ⟨-, hs⟩ := Option.ite_none_left_eq_some.mp hs
    obtain rfl := Option.some.inj hs
    exact h
  | attach | expire =>
    obtain rfl := Option.some.inj hs
    exact h
  | delete r id =>
    obtain ⟨user, -, hs⟩ := Option.bind_eq_some_iff.mp hs
    obtain ⟨file, -, rfl⟩ := Option.map_eq_some_iff.mp hs
    exact h
  | sign r =>
    obtain ⟨user, -, hs⟩ := Option.bind_eq_some_iff.mp hs
    obtain ⟨url, -, rfl⟩ := Option.map_eq_some_iff.mp hs
    exact h
  | call r =>
    obtain ⟨pass, -, rfl⟩ := Option.map_eq_some_iff.mp hs
    cases pass <;> exact h
  | canActivate i r =>
    obtain ⟨-, hs⟩ := Option.ite_none_right_eq_some.mp hs
    obtain ⟨pass, -, rfl⟩ := Option.map_eq_some_iff.mp hs
    exact h
  | serve i =>
    obtain ⟨w, -, rfl⟩ := Option.map_eq_some_iff.mp hs
    unfold serve
    dsimp only
    split <;> exact h

omit [DecidableEq ι] in
private theorem guard_session {r : Request} {user : User}
    (h : MediaAccessGuard d env s.toStore r = .ok (.session user)) :
    sessionUser s.toStore r = some user := by
  rw [MediaAccessGuard] at h
  split at h
  · rename_i found hfound
    obtain rfl := Pass.session.inj (Except.ok.inj h)
    exact hfound
  · split at h
    · cases h
    · split at h
      · split at h <;> cases h
      · cases h

/-- Only an admission is noted as one, with the user its guard found. -/
theorem admissions_step (trail : Trail) {a : Action ι} (hs : step d env s a = some t) :
    (Trail.next s a t trail).admissions = trail.admissions ∨
      ∃ i r pass, a = .canActivate i r ∧ MediaAccessGuard d env s.toStore r = .ok pass ∧
        (Trail.next s a t trail).admissions = (⟨r.id, pass, s.now⟩, r.session.bind trail.signedIn) ::
          trail.admissions := by
  cases a with
  | canActivate i r =>
    obtain ⟨-, hs⟩ := Option.ite_none_right_eq_some.mp hs
    obtain ⟨pass, hguard, rfl⟩ := Option.map_eq_some_iff.mp hs
    refine .inr ⟨i, r, pass, rfl, toOption_ok hguard, ?_⟩
    simp only [Trail.next, Function.update_self, Option.toList_some, List.map_cons, List.map_nil, List.singleton_append]
  | _ => exact .inl rfl

private theorem watched_step {a : Action ι} (h : Watched s trail) (hs : step d env s a = some t) :
    Watched t (Trail.next s a t trail) := by
  refine ⟨sessions_step h.sessions hs, ?_⟩
  intro w who hmem user hpass
  rcases admissions_step trail hs with hsame | ⟨i, r, pass, rfl, hguard, hnoted⟩
  · exact h.admissions w who (hsame ▸ hmem) user hpass
  · rw [hnoted] at hmem
    rcases List.mem_cons.mp hmem with hnew | hold
    · obtain ⟨rfl, rfl⟩ := Prod.mk.inj hnew
      dsimp only at hpass
      subst hpass
      have huser := guard_session hguard
      rwa [sessionUser, h.sessions] at huser
    · exact h.admissions w who hold user hpass

private theorem step_later {a : Action ι} (h : step d env s a = some t) : Later s t := by
  have hsame : ∀ {l : List GlobalApiToken}, l = s.tokens → ∀ row' ∈ l, ∀ time : TimeValue, row'.revokedAt = some time →
      s.now.ms ≤ time.ms ∨ ∃ row ∈ s.tokens, row.id = row'.id ∧ row.revokedAt = some time := by
    intro l hl row' hrow time htime
    exact Or.inr ⟨row', hl ▸ hrow, rfl, htime⟩
  cases step_effect h with
  | quiet hnow _ htokens hlogins hgenerated hlinks =>
    exact ⟨hnow, hlogins ▸ List.Subset.refl _, hgenerated ▸ List.Subset.refl _, hlinks ▸ List.Subset.refl _,
      hsame htokens⟩
  | login sid user => exact ⟨le_rfl, List.subset_cons_self _ _, List.Subset.refl _, List.Subset.refl _, hsame rfl⟩
  | generate =>
    refine ⟨le_rfl, List.Subset.refl _, List.subset_cons_self _ _, List.Subset.refl _, ?_⟩
    intro row' hrow time htime
    rcases List.mem_cons.mp hrow with rfl | hrow
    · exact absurd htime (by simp)
    · exact hsame rfl row' hrow time htime
  | rewrite hid _ hrevoked _ =>
    refine ⟨le_rfl, List.Subset.refl _, List.Subset.refl _, List.Subset.refl _, ?_⟩
    intro row' hrow time htime
    obtain ⟨old, hold, rfl⟩ := List.mem_map.mp hrow
    rcases hrevoked old time htime with rfl | hat
    · exact Or.inl le_rfl
    · exact Or.inr ⟨old, hold, (hid old).symm, hat⟩
  | sign => exact ⟨le_rfl, List.Subset.refl _, List.Subset.refl _, List.subset_cons_self _ _, hsame rfl⟩
  | canActivate => exact ⟨le_rfl, List.Subset.refl _, List.Subset.refl _, List.Subset.refl _, hsame rfl⟩
  | serve => exact ⟨le_rfl, List.Subset.refl _, List.Subset.refl _, List.Subset.refl _, hsame rfl⟩

private theorem rooted_step {a : Action ι} (h : Rooted d s) (hs : step d env s a = some t) : Rooted d t := by
  cases step_effect hs with
  | quiet _ hsessions htokens hlogins hgenerated hlinks =>
    refine ⟨fun sid user hsid => ?_, ?_, ?_, ?_, ?_⟩
    · rw [hlogins]
      exact h.sessions sid user (hsessions sid user hsid)
    · rw [htokens]
      exact h.ids
    · rw [htokens, hgenerated]
      exact h.rows
    · rw [hgenerated, hlogins]
      exact h.generated
    · rw [hlinks, hlogins]
      exact h.links
  | login sid user =>
    refine ⟨fun sid' user' hsid => ?_, h.ids, h.rows, fun made hmade => List.mem_cons_of_mem _ (h.generated made hmade),
      fun link hlink => ⟨List.mem_cons_of_mem _ (h.links link hlink).1, (h.links link hlink).2⟩⟩
    rcases eq_or_ne sid' sid with rfl | hne
    · obtain rfl : user = user' := by simpa using hsid
      exact List.mem_cons_self
    · exact List.mem_cons_of_mem _ (h.sessions sid' user' ((Function.update_of_ne hne _ _).symm.trans hsid))
  | generate hguard hfresh => exact rooted_generate h (SessionGuard_login h hguard) _ _ hfresh
  | rewrite hid hhash _ _ => exact rooted_map h hid hhash
  | sign hguard hmade =>
    refine ⟨h.sessions, h.ids, h.rows, h.generated, fun link hlink => ?_⟩
    rcases List.mem_cons.mp hlink with rfl | hlink
    · obtain ⟨second, -, hsound, -⟩ := createSignedUrl_sound hmade
      exact ⟨SessionGuard_login h hguard, second, hsound.small, hsound.exp, hsound.times⟩
    · exact h.links link hlink
  | canActivate => exact ⟨h.sessions, h.ids, h.rows, h.generated, h.links⟩
  | serve => exact ⟨h.sessions, h.ids, h.rows, h.generated, h.links⟩

omit [DecidableEq ι] in
private theorem token_justified (h : Rooted d s) {token id : String} {row : GlobalApiToken}
    (hfind : findToken d s.toStore token = some row) : Justified d s trail ⟨id, .token row, s.now⟩ := by
  have hmem : row ∈ s.tokens := List.mem_of_find?_eq_some hfind
  have hlive : row.revokedAt = none := by
    have := List.find?_some hfind
    simp only [decide_eq_true_eq] at this
    exact this.2
  obtain ⟨made, hmade, hhash⟩ := h.rows row hmem
  refine ⟨⟨made, hmade, hhash, h.generated made hmade⟩, ?_⟩
  intro row' hrow hid time htime
  rw [h.ids row' hrow row hmem hid, hlive] at htime
  exact absurd htime (by simp)

private theorem verifiedLink_whole {r : Request} {exp : Number} (h : verifiedLink d env r = some exp) :
    ∃ z : ℤ, exp = .finite z ∧ Number.round (z : ℚ) = .finite z := by
  rw [verifiedLink] at h
  cases hexp : r.exp with
  | none => exact absurd (hexp ▸ h) (by simp)
  | some expRaw =>
    cases hsig : r.sig with
    | none => exact absurd (hexp ▸ hsig ▸ h) (by simp)
    | some sig =>
      rw [hexp, hsig] at h
      dsimp only at h
      cases hparse : parseInt expRaw with
      | nan => exact absurd (hparse ▸ h) (by simp)
      | infinite negative => exact absurd (hparse ▸ h) (by simp)
      | finite q =>
        rw [hparse] at h
        obtain ⟨-, h⟩ := Option.ite_none_right_eq_some.mp h
        obtain rfl := Option.some.inj h
        rcases parseInt_whole expRaw with hnan | hwhole
        · exact absurd (hnan.symm.trans hparse) (by simp)
        · rw [hparse] at hwhole
          obtain ⟨z, rfl, hdouble⟩ := hwhole
          exact ⟨z, rfl, hdouble⟩

private theorem signedText_inj {id id' : String} {z n : ℤ} (hdouble : Number.round (z : ℚ) = .finite z)
    (hn : |n| < 2 ^ 53) (h : signedText id' (.finite n) = signedText id (.finite z)) : id' = id ∧ n = z := by
  have hlists := congrArg String.toList h
  simp only [signedText, String.toList_append, show ".".toList = ['.'] from rfl, List.append_assoc,
    List.singleton_append] at hlists
  obtain ⟨hname, hnumber⟩ := dotted_inj hdouble hn hlists.symm
  exact ⟨(String.toList_inj.mp hname).symm, hnumber.symm⟩

omit [DecidableEq ι] in
/-- A link that was made verifies for its own file and its own expiry only. -/
theorem link_justified (h : Rooted d s) {r : Request} {exp : Number} (hverified : verifiedLink d env r = some exp)
    (hlive : (exp.times 1000).below s.now.ms = false)
    (hmade : ∃ link ∈ s.links, signedText link.1 link.2.1 = signedText r.id exp) :
    Justified d s trail ⟨r.id, .link exp, s.now⟩ := by
  obtain ⟨⟨id, made, user⟩, hlink, htext⟩ := hmade
  obtain ⟨hlogin, second, hsmall, hexp, htimes⟩ := h.links _ hlink
  obtain ⟨z, rfl, hdouble⟩ := verifiedLink_whole hverified
  dsimp only at hlogin hexp htimes htext
  subst hexp
  obtain ⟨rfl, rfl⟩ := signedText_inj hdouble hsmall htext
  rw [htimes, Number.below] at hlive
  simp only [decide_eq_false_iff_not, not_lt] at hlive
  exact ⟨user, hlogin, second, hlink, rfl, by exact_mod_cast hlive⟩

omit [DecidableEq ι] in
private theorem activate_justified (h : Rooted d s) {i : ι} {r : Request} (hg : Unforged d env s (.canActivate i r))
    {pass : Pass} (hguard : MediaAccessGuard d env s.toStore r = .ok pass)
    (hnoted : ∃ who, (⟨r.id, pass, s.now⟩, who) ∈ trail.admissions)
    (hwatched : ∀ a who, (a, who) ∈ trail.admissions → ∀ user, a.pass = .session user → who = some user) :
    Justified d s trail ⟨r.id, pass, s.now⟩ := by
  rw [MediaAccessGuard] at hguard
  cases hsession : sessionUser s.toStore r with
  | some user =>
    rw [hsession] at hguard
    obtain rfl := Except.ok.inj hguard
    exact ⟨hnoted, fun who hwho => hwatched _ who hwho user rfl⟩
  | none =>
    rw [hsession] at hguard
    dsimp only at hguard
    cases htoken : (bearer r).bind (findToken d s.toStore) with
    | some row =>
      rw [htoken] at hguard
      obtain rfl := Except.ok.inj hguard
      obtain ⟨token, -, hfind⟩ := Option.bind_eq_some_iff.mp htoken
      exact token_justified h hfind
    | none =>
      rw [htoken] at hguard
      dsimp only at hguard
      cases hverified : verifiedLink d env r with
      | none =>
        rw [hverified] at hguard
        exact absurd hguard (by simp)
      | some exp =>
        rw [hverified] at hguard
        dsimp only at hguard
        split at hguard
        · exact absurd hguard (by simp)
        · rename_i hlive
          obtain rfl := Except.ok.inj hguard
          exact link_justified h hverified (by simpa using hlive) (hg exp hverified)

/-- Every admission, finished or not, was justified when it was made and still is. -/
structure Traced (d : Digests) (s : State ι) (trail : Trail) : Prop where
  inFlight : ∀ i a, s.inFlight i = some a → a.admittedAt.ms ≤ s.now.ms ∧ Justified d s trail a
  served : ∀ w ∈ s.served, (w.admitted.admittedAt.ms ≤ s.now.ms ∧ Justified d s trail w.admitted) ∧
    w.file.id = w.admitted.id ∧ w.file.deletedAt = none

omit [DecidableEq ι] in
/-- A step keeps the trace when what it admits is justified and what it serves was admitted. -/
theorem Traced.later (h : Traced d s trail) (hlater : Later s t) (hkept : trail.admissions ⊆ trail'.admissions)
    (hwatched : Watched t trail')
    (hinFlight : ∀ i a, t.inFlight i = some a → s.inFlight i = some a ∨ a.admittedAt = t.now ∧ Justified d t trail' a)
    (hserved : ∀ w ∈ t.served, w ∈ s.served ∨
      (∃ i, s.inFlight i = some w.admitted) ∧ w.file.id = w.admitted.id ∧ w.file.deletedAt = none) :
    Traced d t trail' := by
  refine ⟨fun i a ha => ?_, fun w hw => ?_⟩
  · rcases hinFlight i a ha with hold | ⟨hnow, hnew⟩
    · obtain ⟨hle, hjust⟩ := h.inFlight i a hold
      exact ⟨hle.trans hlater.now, hjust.later hle hlater hkept hwatched⟩
    · exact ⟨hnow ▸ le_rfl, hnew⟩
  · rcases hserved w hw with hold | ⟨⟨i, hi⟩, hfile⟩
    · obtain ⟨⟨hle, hjust⟩, hfile⟩ := h.served w hold
      exact ⟨⟨hle.trans hlater.now, hjust.later hle hlater hkept hwatched⟩, hfile⟩
    · obtain ⟨hle, hjust⟩ := h.inFlight i w.admitted hi
      exact ⟨⟨hle.trans hlater.now, hjust.later hle hlater hkept hwatched⟩, hfile⟩

theorem traced_step {a : Action ι} (hrooted : Rooted d s) (hwatched : Watched s trail) (h : Traced d s trail)
    (hg : Unforged d env s a) (hs : step d env s a = some t) : Traced d t (Trail.next s a t trail) := by
  have hlater := step_later hs
  have hwatched' := watched_step hwatched hs
  have hnoted := admissions_step trail hs
  have hkept : trail.admissions ⊆ (Trail.next s a t trail).admissions := by
    rcases hnoted with hsame | ⟨_, _, _, _, _, hnew⟩
    · exact hsame ▸ List.Subset.refl _
    · exact hnew ▸ List.subset_cons_self _ _
  cases step_effect hs with
  | quiet _ _ _ _ _ _ hinFlight hserved =>
    exact h.later hlater hkept hwatched' (fun i a ha => Or.inl (hinFlight ▸ ha)) (fun w hw => Or.inl (hserved ▸ hw))
  | canActivate hguard =>
    rename_i i r pass
    refine h.later hlater hkept hwatched' (fun j a ha => ?_) (fun w hw => Or.inl hw)
    rcases eq_or_ne j i with rfl | hne
    · obtain rfl : ⟨r.id, pass, s.now⟩ = a := by simpa using ha
      refine Or.inr ⟨rfl, activate_justified hrooted hg hguard ⟨r.session.bind trail.signedIn, ?_⟩ hwatched'.admissions⟩
      simp [Trail.next]
    · exact Or.inl ((Function.update_of_ne hne _ _).symm.trans ha)
  | serve hw hnew =>
    rename_i i w served
    refine h.later hlater hkept hwatched' (fun j a ha => Or.inl (update_none ha)) (fun u hu => ?_)
    rcases hnew u hu with hold | ⟨hadmitted, hfile⟩
    · exact Or.inl hold
    · exact Or.inr ⟨⟨i, hadmitted ▸ hw⟩, hadmitted ▸ hfile⟩
  | login => exact h.later hlater hkept hwatched' (fun i a ha => Or.inl ha) (fun w hw => Or.inl hw)
  | generate => exact h.later hlater hkept hwatched' (fun i a ha => Or.inl ha) (fun w hw => Or.inl hw)
  | rewrite => exact h.later hlater hkept hwatched' (fun i a ha => Or.inl ha) (fun w hw => Or.inl hw)
  | sign => exact h.later hlater hkept hwatched' (fun i a ha => Or.inl ha) (fun w hw => Or.inl hw)

private theorem rooted_init (h : (system d env).init s) : Rooted d s := by
  obtain ⟨hsessions, -, -, htokens, -, -, hgenerated, hlinks, -⟩ := h
  refine ⟨fun sid user hsid => ?_, ?_, ?_, ?_, ?_⟩
  · rw [hsessions] at hsid
    exact absurd hsid (by simp)
  · simp [htokens]
  · simp [htokens]
  · simp [hgenerated]
  · simp [hlinks]

/-- In every run every file was served to a user who was signed in, to a token nobody had revoked,
or to a link made for it and still running, and the file was not deleted. -/
theorem served_traced {p : State ι × Trail} (h : (watched d env).ReachableUnder (fun p a => Unforged d env p.1 a) p)
    {w : Download} (hw : w ∈ p.1.served) :
    w.file.id = w.admitted.id ∧ w.file.deletedAt = none ∧ Justified d p.1 p.2 w.admitted := by
  have hall : Rooted d p.1 ∧ Watched p.1 p.2 ∧ Traced d p.1 p.2 := by
    refine h.invariant (I := fun p => Rooted d p.1 ∧ Watched p.1 p.2 ∧ Traced d p.1 p.2) ?_ ?_
    · rintro ⟨s, trail⟩ ⟨hinit, htrail⟩
      dsimp only at hinit htrail
      subst htrail
      have hrooted := rooted_init hinit
      obtain ⟨hsessions, hinFlight, -, -, -, -, -, -, hserved⟩ := hinit
      refine ⟨hrooted, ⟨funext hsessions, fun a who hmem => absurd hmem List.not_mem_nil⟩, ⟨fun i a ha => ?_, ?_⟩⟩
      · rw [hinFlight] at ha
        exact absurd ha (by simp)
      · simp [hserved]
    · rintro p a q ⟨hrooted, hwatched, htraced⟩ hg hs
      obtain ⟨hs, htrail⟩ := System.observed_step hs
      rw [htrail]
      exact ⟨rooted_step hrooted hs, watched_step hwatched hs, traced_step hrooted hwatched htraced hg hs⟩
  obtain ⟨⟨-, hjust⟩, hid, hlive⟩ := hall.2.2.served w hw
  exact ⟨hid, hlive, hjust⟩

end

namespace Sample

private theorem noon_valid : |(1793188800000 : ℤ)| ≤ 8640000000000000 := by decide

def empty : State Unit where
  now := ⟨1793188800000, noon_valid⟩
  users _ := none
  sessions _ := none
  tokens := []
  attachments := []
  inFlight _ := none
  logins := []
  generated := []
  links := []
  served := []

def admin : Request := ⟨some "sid", none, "", none, none⟩

def program : Request := ⟨none, some "Bearer umg_ab07", "photo", none, none⟩

def browser : Request := ⟨some "sid", none, "photo", none, none⟩

def issued : List (Action Unit) :=
  [.bootstrapAdmin "1" "pw", .login "sid" "admin" "pw", .generate admin "t1" "backup" [0xab, 7]]

/-- The token is revoked between the two steps of a download; the admin looks at the photo and
signs out before it is read. -/
def tour : List (Action Unit) :=
  issued ++
    [.store photo, .canActivate () program, .revoke admin "t1", .serve (), .canActivate () browser, .logout admin,
    .serve ()]

theorem empty_init : (system digests settings).init empty :=
  ⟨fun _ => rfl, fun _ => rfl, rfl, rfl, rfl, rfl, rfl, rfl, rfl⟩

end Sample

theorem served_traced_tour : ∃ p : State Unit × Trail, p.1.served.length = 2 ∧ ∀ w ∈ p.1.served,
    w.file.id = w.admitted.id ∧ w.file.deletedAt = none ∧ Justified Sample.digests p.1 p.2 w.admitted := by
  have hserved : ((system Sample.digests Sample.settings).replay Sample.empty Sample.tour).map (·.served.length) =
    some 2 := by
    rfl
  obtain ⟨t, ht, hlength⟩ := Option.map_eq_some_iff.mp hserved
  obtain ⟨trail, htrail⟩ := System.replay_observed Trail.next ⟨fun _ => none, []⟩ ht
  have hobey : ∀ a ∈ Sample.tour, ∀ p : State Unit × Trail, Unforged Sample.digests Sample.settings p.1 a := by
    simp [Sample.tour, Sample.issued, Unforged, verifiedLink, Sample.program, Sample.browser]
  exact ⟨(t, trail), hlength, fun w hw =>
    served_traced (.replay (.init ⟨Sample.empty_init, rfl⟩) (System.obeys_of_forall hobey _) htrail) hw⟩

end MessagingGateway.Access
