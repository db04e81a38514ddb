import MessagingGateway.Js.Integer
import Mathlib.Logic.Function.Basic

/-! The guards of the HTTP routes: the admin session, the global API tokens and the signed
media links. The digests of the platform and the password hash are parameters. -/
namespace MessagingGateway.Access
open Js

structure Digests where
  sha256 : String → String
  hmac : String → String → String
  verify : String → String → Bool

/-- The variables of the environment that the guards read. -/
structure Settings where
  mediaUrlSecret : Option String
  sessionSecret : Option String
  mediaUrlTtlHours : Option String

inductive HttpError where
  | unauthorized (message : String)
  | notFound (message : String)
  | gone (message : String)
  | conflict (message : String)
  | invalidDate
  deriving DecidableEq, Repr

structure User where
  id : String
  username : String
  deriving DecidableEq, Repr

structure AdminUser extends User where
  passwordHash : String

structure GlobalApiToken where
  id : String
  name : String
  tokenHash : String
  lastUsedAt : Option TimeValue
  revokedAt : Option TimeValue

structure Attachment where
  id : String
  fileName : String
  mimeType : String
  sizeBytes : ℕ
  storagePath : String
  messageId : Option String
  deletedAt : Option TimeValue

/-- What the guards read of a request; a repeated query parameter is no string. -/
structure Request where
  session : Option String
  authorization : Option String
  id : String
  exp : Option String
  sig : Option String

/-- What a request was let in by. -/
inductive Pass where
  | session (user : User)
  | token (row : GlobalApiToken)
  | link (exp : Number)

structure SignedUrl where
  id : String
  exp : Number
  sig : String
  expiresAt : TimeValue

/-- The database rows and the session store. -/
structure Store where
  now : TimeValue
  users : String → Option AdminUser
  sessions : String → Option User
  tokens : List GlobalApiToken
  attachments : List Attachment

/-- `a || b` -/
def orElse (a : Option String) (b : String) : String :=
  match a with
  | some text => if text = "" then b else text
  | none => b

def Settings.secret (env : Settings) : String :=
  orElse env.mediaUrlSecret (orElse env.sessionSecret "change-me-in-production")

/-- `parseInt(env ?? '24', 10) || 24` -/
def Settings.ttlHours (env : Settings) : Number :=
  let parsed := parseInt (env.mediaUrlTtlHours.getD "24")
  if parsed = .nan ∨ parsed = .finite 0 then .finite 24 else parsed

/-- `auth.split(' ')` with the scheme in any case and a token that is not empty. -/
def bearer (r : Request) : Option String :=
  match (r.authorization.getD "").toList.splitOn ' ' with
  | scheme :: token :: _ =>
    if scheme.map Char.toLower = "bearer".toList ∧ token ≠ [] then some (String.ofList token) else none
  | _ => none

def sessionUser (s : Store) (r : Request) : Option User := r.session.bind s.sessions

def findToken (d : Digests) (s : Store) (token : String) : Option GlobalApiToken :=
  s.tokens.find? fun row => row.tokenHash = d.sha256 token ∧ row.revokedAt = none

def SessionGuard (s : Store) (r : Request) : Except HttpError User :=
  match sessionUser s r with
  | some user => .ok user
  | none => .error (.unauthorized "Сесія недійсна. Увійдіть знову.")

def ApiTokenGuard (d : Digests) (s : Store) (r : Request) : Except HttpError GlobalApiToken :=
  match bearer r with
  | none => .error (.unauthorized "Потрібен Bearer API token.")
  | some token => match findToken d s token with
    | none => .error (.unauthorized "Недійсний API token.")
    | some row => .ok row

def SessionOrTokenGuard (d : Digests) (s : Store) (r : Request) : Except HttpError Pass :=
  match sessionUser s r with
  | some user => .ok (.session user)
  | none => match bearer r with
    | none => .error (.unauthorized "Потрібна сесія адміністратора або Bearer API token.")
    | some token => match findToken d s token with
      | none => .error (.unauthorized "Недійсний API token.")
      | some row => .ok (.token row)

/-- What a signature is made over. -/
def signedText (id : String) (exp : Number) : String := id ++ "." ++ exp.text

def signMediaUrl (d : Digests) (env : Settings) (id : String) (exp : Number) : String :=
  d.hmac env.secret (signedText id exp)

/-- The expiry of a link whose signature is right. -/
def verifiedLink (d : Digests) (env : Settings) (r : Request) : Option Number :=
  match r.exp, r.sig with
  | some expRaw, some sig =>
    match parseInt expRaw with
    | .finite q => if r.id ≠ "" ∧ sig = signMediaUrl d env r.id (.finite q) then some (.finite q) else none
    | _ => none
  | _, _ => none

def MediaAccessGuard (d : Digests) (env : Settings) (s : Store) (r : Request) : Except HttpError Pass :=
  match sessionUser s r with
  | some user => .ok (.session user)
  | none => match (bearer r).bind (findToken d s) with
    | some row => .ok (.token row)
    | none => match verifiedLink d env r with
      | some exp =>
        if (exp.times 1000).below s.now.ms then .error (.gone "Термін дії підписаного посилання минув.")
        else .ok (.link exp)
      | none => .error (.unauthorized "Доступ до медіа заборонено.")

def findAttachment (s : Store) (id : String) : Except HttpError Attachment :=
  match s.attachments.find? (·.id = id) with
  | none => .error (.notFound "Файл не знайдено.")
  | some attachment =>
    if attachment.deletedAt.isSome then .error (.gone "Файл було видалено.") else .ok attachment

/-- The row that `MediaService.delete` may take away: files of messages stay. -/
def findDeletable (s : Store) (id : String) : Except HttpError Attachment :=
  match s.attachments.find? (·.id = id) with
  | none => .error (.notFound "Файл не знайдено.")
  | some attachment =>
    if attachment.messageId.isSome then
      .error (.conflict "Неможливо видалити файл, що прив'язаний до повідомлення (незмінна історія).")
    else .ok attachment

/-- `MediaService.createSignedUrl`; an expiry beyond the range of dates throws. -/
def createSignedUrl (d : Digests) (env : Settings) (s : Store) (id : String) : Except HttpError SignedUrl :=
  match findAttachment s id with
  | .error e => .error e
  | .ok attachment =>
    let exp := (Number.finite ((s.now.ms / 1000 : ℤ) : ℚ)).plus (env.ttlHours.times 3600)
    match timeClip (exp.times 1000) with
    | none => .error .invalidDate
    | some expiresAt => .ok ⟨attachment.id, exp, signMediaUrl d env attachment.id exp, expiresAt⟩

/-- `MediaController.download` -/
def download (d : Digests) (env : Settings) (s : Store) (r : Request) : Except HttpError Attachment :=
  match MediaAccessGuard d env s r with
  | .error e => .error e
  | .ok _ => findAttachment s r.id

def validatePassword (d : Digests) (s : Store) (username password : String) : Option User :=
  match s.users username with
  | some user => if d.verify user.passwordHash password then some user.toUser else none
  | none => none

/-- A link expires at a whole second that prints and reads back exactly. -/
structure SignedUrl.Sound (url : SignedUrl) (second : ℤ) : Prop where
  exp : url.exp = .finite second
  small : |second| < 2 ^ 53
  times : url.exp.times 1000 = .finite ((second * 1000 : ℤ) : ℚ)

private theorem ttlHours_whole (env : Settings) : env.ttlHours.Whole := by
  unfold Settings.ttlHours
  dsimp only
  split
  · exact ⟨24, by norm_num, by exact_mod_cast round_int (z := 24) (by norm_num)⟩
  · rename_i hkeep
    rcases parseInt_whole (env.mediaUrlTtlHours.getD "24") with hnan | hwhole
    · exact absurd (Or.inl hnan) hkeep
    · exact hwhole

private theorem timeClip_small {n : Number} {t : TimeValue} (h : timeClip n = some t) :
    ∃ r, n = .finite r ∧ |r| ≤ 8640000000000000 := by
  cases n with
  | nan => exact absurd h (by simp [timeClip])
  | infinite negative => exact absurd h (by simp [timeClip])
  | finite r =>
    refine ⟨r, rfl, ?_⟩
    rw [timeClip] at h
    split at h
    · assumption
    · exact absurd h (by simp)

/-- A whole number of seconds within the range of dates is exact, and so is its product. -/
theorem seconds_exact {n : Number} (hwhole : n.Whole) {t : TimeValue} (h : timeClip (n.times 1000) = some t) :
    ∃ second : ℤ, n = .finite second ∧ |second| ≤ 8640000000000 ∧ n.times 1000 = .finite ((second * 1000 : ℤ) : ℚ) := by
  obtain ⟨r, hr, hle⟩ := timeClip_small h
  cases n with
  | nan => exact hwhole.elim
  | infinite negative => exact absurd hr (by simp [Number.times])
  | finite q =>
    obtain ⟨second, rfl, -⟩ := hwhole
    have hround : Number.round ((second * 1000 : ℤ) : ℚ) = .finite r := by
      rw [← hr, Number.times]
      push_cast
      rfl
    have hexact := eq_of_round_small hround (lt_of_le_of_lt hle (by norm_num))
    refine ⟨second, rfl, ?_, by rw [hr, hexact]⟩
    rw [hexact] at hle
    have hbounds : |second * 1000| ≤ 8640000000000000 := by exact_mod_cast hle
    have := abs_le.mp hbounds
    exact abs_le.mpr ⟨by omega, by omega⟩

theorem findAttachment_ok {s : Store} {id : String} {a : Attachment} (h : findAttachment s id = .ok a) :
    a ∈ s.attachments ∧ a.id = id ∧ a.deletedAt = none := by
  rw [findAttachment] at h
  cases hfind : s.attachments.find? (·.id = id) with
  | none =>
    rw [hfind] at h
    exact absurd h (by simp)
  | some b =>
    rw [hfind] at h
    dsimp only at h
    split at h
    · exact absurd h (by simp)
    · rename_i hlive
      obtain rfl := Except.ok.inj h
      exact ⟨List.mem_of_find?_eq_some hfind, by simpa using List.find?_some hfind, by simpa using hlive⟩

/-- The sum and the product behind a small expiry are exact too. -/
theorem expiry_exact {now : TimeValue} {ttl : Number} (hwhole : ttl.Whole) {second : ℤ} (hsmall : |second| < 2 ^ 52)
    (h : (Number.finite ((now.ms / 1000 : ℤ) : ℚ)).plus (ttl.times 3600) = .finite second) :
    ∃ hours : ℤ, ttl = .finite hours ∧ second = now.ms / 1000 + hours * 3600 := by
  have hnow := abs_le.mp now.valid
  have hbounds := abs_lt.mp hsmall
  have hhours := whole_times hwhole 3600
  cases hproduct : ttl.times 3600 with
  | nan => exact absurd (hproduct ▸ hhours) (by simp [Number.Whole])
  | infinite negative => exact absurd (hproduct ▸ h) (by simp [Number.plus])
  | finite u =>
    obtain ⟨w, rfl, -⟩ : (Number.finite u).Whole := hproduct ▸ hhours
    have hsum : Number.round ((now.ms / 1000 + w : ℤ) : ℚ) = .finite second := by
      rw [← h, hproduct, Number.plus]
      push_cast
      rfl
    have hsecond : (second : ℚ) = ((now.ms / 1000 + w : ℤ) : ℚ) := by
      refine eq_of_round_small hsum ?_
      have hsafe : |second| < 2 ^ 53 := abs_lt.mpr ⟨by omega, by omega⟩
      exact_mod_cast hsafe
    have hsecond' : second = now.ms / 1000 + w := by exact_mod_cast hsecond
    cases ttl with
    | nan => exact hwhole.elim
    | infinite negative => exact absurd hproduct (by simp [Number.times])
    | finite q =>
      obtain ⟨hours, rfl, -⟩ := hwhole
      have hround : Number.round ((hours * 3600 : ℤ) : ℚ) = .finite w := by
        rw [← hproduct, Number.times]
        push_cast
        rfl
      have hw : |(w : ℚ)| < 2 ^ 53 := by
        have : |w| < 2 ^ 53 := abs_lt.mpr ⟨by omega, by omega⟩
        exact_mod_cast this
      have hw' : w = hours * 3600 := by exact_mod_cast eq_of_round_small hround hw
      exact ⟨hours, rfl, by rw [hsecond', hw']⟩

/-- A link that is issued at all expires exactly the configured number of hours after the
second it was issued in. -/
theorem createSignedUrl_sound {d : Digests} {env : Settings} {s : Store} {id : String} {url : SignedUrl}
    (h : createSignedUrl d env s id = .ok url) : ∃ second hours : ℤ, url.Sound second ∧
      env.ttlHours = .finite hours ∧ second = s.now.ms / 1000 + hours * 3600 ∧
      url.id = id ∧ url.sig = signMediaUrl d env id url.exp := by
  rw [createSignedUrl] at h
  cases hfind : findAttachment s id with
  | error e =>
    rw [hfind] at h
    exact absurd h (by simp)
  | ok a =>
    rw [hfind] at h
    dsimp only at h
    obtain ⟨-, rfl, -⟩ := findAttachment_ok hfind
    cases hclip : timeClip
      (((Number.finite ((s.now.ms / 1000 : ℤ) : ℚ)).plus (env.ttlHours.times 3600)).times 1000) with
    | none =>
      rw [hclip] at h
      exact absurd h (by simp)
    | some expiresAt =>
      rw [hclip] at h
      obtain rfl := Except.ok.inj h
      have hhours := whole_times (ttlHours_whole env) 3600
      obtain ⟨second, hexp, hsmall, htimes⟩ := seconds_exact (whole_plus_int hhours (s.now.ms / 1000)) hclip
      have hbounds := abs_le.mp hsmall
      obtain ⟨hours, httl, hsecond⟩ := expiry_exact (ttlHours_whole env) (abs_lt.mpr ⟨by omega, by omega⟩) hexp
      exact ⟨second, hours, ⟨hexp, abs_lt.mpr ⟨by omega, by omega⟩, htimes⟩, httl, hsecond, rfl, rfl⟩

/-- A request that brings the link as it was issued, and nothing else. -/
def SignedUrl.request (url : SignedUrl) : Request := ⟨none, none, url.id, some url.exp.text, some url.sig⟩

private theorem bearer_request (url : SignedUrl) : bearer url.request = none := by
  rfl

private theorem guard_request {d : Digests} {env : Settings} {later : Store} {url : SignedUrl} {second : ℤ}
    (hsound : url.Sound second) (hid : url.id ≠ "") (hsig : url.sig = signMediaUrl d env url.id url.exp) :
    MediaAccessGuard d env later url.request = if later.now.ms ≤ second * 1000 then .ok (.link url.exp)
      else .error (.gone "Термін дії підписаного посилання минув.") := by
  have hverified : verifiedLink d env url.request = some url.exp := by
    rw [verifiedLink, SignedUrl.request]
    dsimp only
    rw [hsound.exp, parseInt_text hsound.small]
    dsimp only
    rw [if_pos ⟨hid, by rw [hsig, hsound.exp]⟩]
  rw [MediaAccessGuard, show sessionUser later url.request = none from rfl, bearer_request]
  dsimp only [Option.bind_none]
  rw [hverified]
  dsimp only
  rw [hsound.times, Number.below]
  by_cases hle : later.now.ms ≤ second * 1000
  · rw [if_pos hle, if_neg]
    simp only [decide_eq_true_eq, not_lt]
    exact_mod_cast hle
  · rw [if_neg hle, if_pos]
    simp only [decide_eq_true_eq]
    exact_mod_cast not_le.mp hle

/-- An issued link opens its file until the end of its last second and no longer. -/
theorem signed_link_works {d : Digests} {env : Settings} {s : Store} {id : String} {url : SignedUrl} (hid : id ≠ "")
    (h : createSignedUrl d env s id = .ok url) (later : Store) :
    ∃ hours : ℤ, env.ttlHours = .finite hours ∧ download d env later url.request =
      if later.now.ms ≤ (s.now.ms / 1000 + hours * 3600) * 1000 then findAttachment later id
      else .error (.gone "Термін дії підписаного посилання минув.") := by
  obtain ⟨second, hours, hsound, httl, rfl, rfl, hsig⟩ := createSignedUrl_sound h
  refine ⟨hours, httl, ?_⟩
  rw [download, guard_request hsound hid hsig]
  by_cases hle : later.now.ms ≤ (s.now.ms / 1000 + hours * 3600) * 1000
  · rw [if_pos hle, if_pos hle]
    rfl
  · rw [if_neg hle, if_neg hle]

namespace Sample

def digests : Digests :=
  ⟨fun text => "digest of " ++ text, fun secret text => secret ++ "/" ++ text,
    fun stored password => stored == password⟩

def settings : Settings := ⟨some "media", none, none⟩

def photo : Attachment := ⟨"photo", "photo.jpg", "image/jpeg", 5120, "2026/10/27/aa/photo.jpg", none, none⟩

def shelf : Store := ⟨⟨1793188800000, by decide⟩, fun _ => none, fun _ => none, [], [photo]⟩

def photoUrl : SignedUrl :=
  ⟨"photo", .finite (1793275200 : ℤ), signMediaUrl digests settings "photo" (.finite (1793275200 : ℤ)),
    ⟨1793275200000, by decide⟩⟩

private theorem settings_ttlHours : settings.ttlHours = .finite (24 : ℤ) := by
  have hparsed : parseInt "24" = .finite (24 : ℤ) := by
    have htext : (Number.finite ((24 : ℤ) : ℚ)).text = "24" := by
      rw [← String.toList_inj, text_safe (by norm_num)]
      rfl
    rw [← htext, parseInt_text (by norm_num)]
  rw [Settings.ttlHours, show settings.mediaUrlTtlHours.getD "24" = "24" from rfl, hparsed]
  norm_num

private theorem photoUrl_made : createSignedUrl digests settings shelf "photo" = .ok photoUrl := by
  have hsecond : (Number.finite ((shelf.now.ms / 1000 : ℤ) : ℚ)).plus (settings.ttlHours.times 3600) =
      .finite (1793275200 : ℤ) := by
    have hhours := round_int (z := 86400) (by norm_num)
    have hsum := round_int (z := 1793275200) (by norm_num)
    rw [settings_ttlHours, Number.times]
    norm_num at hhours hsum ⊢
    rw [hhours, Number.plus, show shelf.now.ms / 1000 = 1793188800 from rfl]
    norm_num
    exact hsum
  have hproduct : (Number.finite ((1793275200 : ℤ) : ℚ)).times 1000 = .finite (1793275200000 : ℤ) := by
    have := round_int (z := 1793275200000) (by norm_num)
    rw [Number.times]
    norm_num at this ⊢
    exact this
  have hclip : timeClip (.finite ((1793275200000 : ℤ) : ℚ)) = some ⟨1793275200000, by decide⟩ := by
    rw [timeClip, if_pos (by norm_num), if_neg (by norm_num), Int.floor_intCast]
    rfl
  rw [createSignedUrl, show findAttachment shelf "photo" = .ok photo from rfl]
  dsimp only
  rw [hsecond, hproduct, hclip]
  rfl

end Sample

theorem signed_link_works_photo : ∃ hours : ℤ, Sample.settings.ttlHours = .finite hours ∧
    download Sample.digests Sample.settings Sample.shelf Sample.photoUrl.request =
      if Sample.shelf.now.ms ≤ (Sample.shelf.now.ms / 1000 + hours * 3600) * 1000 then
        findAttachment Sample.shelf "photo"
      else .error (.gone "Термін дії підписаного посилання минув.") :=
  signed_link_works (by decide) Sample.photoUrl_made Sample.shelf

end MessagingGateway.Access
