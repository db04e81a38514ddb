import MessagingGateway.Adapters.Attachments
import MessagingGateway.Js.Url

/-! `fetchInboundMedia` of gwmd: a reference is checked as it is written, and requested as the URL
parser reads it. -/
namespace MessagingGateway.Adapters.Gwmd
open Js

structure MediaRequest where
  url : Url
  headers : List (String × String)

/-- What `fetch` comes to for a file. -/
inductive MediaReply where
  | answered (status : ℕ) (contentType : Option String) (bytes : List UInt8)
  | failed (message : String)

structure MediaFile where
  bytes : List UInt8
  contentType : String
  fileName : String

/-- The request that was made, and what the call returns or throws. -/
structure Fetched where
  request : Option MediaRequest
  result : Except String MediaFile

def authHeader (account : AccountConfig) : Option String :=
  let user := configText account.configJson "username"
  let pass := configText account.configJson "password"
  if user = "" ∨ pass = "" then none
  else some ("Basic " ++ String.ofList (Base64.encode (user ++ ":" ++ pass).toUTF8.toList))

/-- `ref.replace(/^\/+/, '')`. -/
def cleaned (ref : String) : List Char := ref.toList.dropWhile (· = '/')

/-- `clean.startsWith('statics/')` without `clean.includes('..')`. -/
def isStaticsPath (clean : List Char) : Bool := "statics/".toList.isPrefixOf clean && !decide ("..".toList <:+: clean)

/-- `res.ok` and the file, or what is thrown. -/
def received (clean : List Char) : MediaReply → Except String MediaFile
  | .failed message => .error message
  | .answered status contentType bytes =>
    if isOk status then
      .ok
        { bytes
          contentType := contentType.getD "application/octet-stream"
          fileName := String.ofList ((clean.splitOn '/').getLastD "attachment".toList) }
    else .error ("gwmd media " ++ String.ofList clean ++ " returned " ++ toString status)

def fetchInboundMedia (valid : List Char → Bool) (sidecar : MediaRequest → MediaReply) (account : AccountConfig)
    (ref : String) : Fetched :=
  let clean := cleaned ref
  if isStaticsPath clean then
    match baseUrl "gwmd" account with
    | .error message => ⟨none, .error message⟩
    | .ok base =>
      let url := base ++ "/app/" ++ String.ofList clean
      match Url.parse valid url.toList with
      | none => ⟨none, .error ("Failed to parse URL from " ++ url)⟩
      | some requested =>
        let request : MediaRequest := ⟨requested, (authHeader account).toList.map fun auth => ("authorization", auth)⟩
        ⟨some request, received clean (sidecar request)⟩
  else ⟨none, .error ("gwmd media ref is not a statics path: " ++ ref)⟩

/-- The base URL that is configured, as a directory. -/
def directory (valid : List Char → Bool) (account : AccountConfig) : Option Url := do
  let base ← (baseUrl "gwmd" account).toOption
  Url.parse valid (base ++ "/").toList

/-- `<base path>/app/statics`. -/
def statics (base : Url) : List Segment := base.path.dropLast ++ ["app".toList, "statics".toList]

/-- The URL is one below the directory `statics` of the configured host. -/
structure UnderStatics (base requested : Url) : Prop where
  scheme : requested.scheme = base.scheme
  authority : requested.authority = base.authority
  path : ∃ rest, rest ≠ [] ∧ requested.path = statics base ++ rest

/-- Where the reference leads from `statics`: so many directories up, and then down. -/
def reference (ref : String) : Url.Relative :=
  Url.Relative.walk ⟨0, []⟩ (Url.below ((cleaned ref).drop "statics/".length))

/-- The base is a mere directory, and the reference comes down again where it climbed. -/
structure StaysBelow (base : Url) (ref : String) : Prop where
  plain : base.suffix = []
  returns : ∃ rest, rest ≠ [] ∧
    (reference ref).descents = (statics base).drop ((statics base).length - (reference ref).climbs) ++ rest

section
variable {valid : List Char → Bool} {sidecar : MediaRequest → MediaReply} {account : AccountConfig} {ref : String}
  {request : MediaRequest}

private theorem fetchInboundMedia_request (h : (fetchInboundMedia valid sidecar account ref).request = some request) :
    isStaticsPath (cleaned ref) ∧ ∃ base, baseUrl "gwmd" account = .ok base ∧
      Url.parse valid (base ++ "/app/" ++ String.ofList (cleaned ref)).toList = some request.url := by
  unfold fetchInboundMedia at h
  dsimp only at h
  split at h
  · rename_i hstatics
    refine ⟨hstatics, ?_⟩
    split at h
    · exact absurd h (by simp)
    · rename_i base hbase
      refine ⟨base, hbase, ?_⟩
      split at h
      · exact absurd h (by simp)
      · rename_i requested hrequested
        obtain rfl := Option.some.inj h
        exact hrequested
  · exact absurd h (by simp)

/-- An accepted reference is walked from `statics` on. -/
theorem below_cleaned (h : isStaticsPath (cleaned ref)) (path : List Segment) :
    Url.walk path (Url.below ("app".toList ++ '/' :: cleaned ref)) =
      (reference ref).resolve (path ++ ["app".toList, "statics".toList]) := by
  have hprefix : "statics/".toList <+: cleaned ref := List.isPrefixOf_iff_prefix.mp ((Bool.and_eq_true _ _).mp h).1
  obtain ⟨rest, hrest⟩ := hprefix
  have hcleaned : cleaned ref = "statics".toList ++ '/' :: rest := hrest.symm
  have hdrop : (cleaned ref).drop "statics/".length = rest := by
    rw [← hrest]
    exact List.drop_left
  have hfront : ["app".toList, "statics".toList].foldl Url.enter path = path ++ ["app".toList, "statics".toList] := by
    have hname : ∀ path, Url.enter (Url.enter path "app".toList) "statics".toList =
        path ++ ["app".toList] ++ ["statics".toList] := fun _ => rfl
    rw [List.foldl_cons, List.foldl_cons, List.foldl_nil, hname, List.append_assoc]
    rfl
  have hwalk := Url.walk_append path ["app".toList, "statics".toList] (Url.below_ne_nil rest)
  have hstart (path : List Segment) : Url.Relative.resolve ⟨0, []⟩ path = path := by simp [Url.Relative.resolve]
  rw [reference, hdrop, Url.Relative.resolve_walk, hstart, ← hfront, ← hwalk, Url.below_name (by decide), hcleaned,
    Url.below_name (by decide)]
  rfl

/-- The request stays under `statics` exactly when the reference comes down where it climbed. -/
theorem requested_under_statics_iff (valid : List Char → Bool) (sidecar : MediaRequest → MediaReply)
    (account : AccountConfig) (ref : String) (request : MediaRequest)
    (h : (fetchInboundMedia valid sidecar account ref).request = some request) :
    (∃ base, directory valid account = some base ∧ UnderStatics base request.url) ↔
      ∃ base, directory valid account = some base ∧ StaysBelow base ref := by
  obtain ⟨hstatics, base, hbase, hrequested⟩ := fetchInboundMedia_request h
  apply exists_congr
  intro configured
  apply and_congr_right
  intro hdirectory
  rw [directory, hbase] at hdirectory
  have hparse : Url.parse valid (base.toList ++ ['/']) = some configured := by
    have htext : (base ++ "/").toList = base.toList ++ ['/'] := String.toList_append
    exact htext ▸ hdirectory
  obtain ⟨requested, hurl, hscheme, hauthority, hpath⟩ := Url.parse_below hparse ("app".toList ++ '/' :: cleaned ref)
  have htext : (base ++ "/app/" ++ String.ofList (cleaned ref)).toList =
      base.toList ++ '/' :: ("app".toList ++ '/' :: cleaned ref) := by
    simp only [String.toList_append, String.toList_ofList, List.append_assoc]
    rfl
  obtain rfl := Option.some.inj (hurl.symm.trans (htext ▸ hrequested))
  rw [below_cleaned hstatics] at hpath
  constructor
  · rintro ⟨-, -, rest, hne, hrest⟩
    rw [hpath] at hrest
    split at hrest
    · rename_i hplain
      exact ⟨hplain, rest, hne, (Url.Relative.resolve_eq_append_iff _ _ _).mp hrest⟩
    · -- with a query in the base, its own path is requested, which is too short
      have hlength := congrArg List.length hrest
      simp only [statics, List.length_append, List.length_dropLast, List.length_cons] at hlength
      omega
  · rintro ⟨hplain, rest, hne, hrest⟩
    refine ⟨hscheme, hauthority, rest, hne, ?_⟩
    rw [hpath, if_pos hplain]
    exact (Url.Relative.resolve_eq_append_iff _ _ _).mpr hrest

end

namespace Sample

def account : AccountConfig := ⟨.obj [("baseUrl", .str "http://gwmd:3000")]⟩

def requested (path : List String) : MediaRequest :=
  ⟨⟨"http".toList, "gwmd:3000".toList, path.map String.toList, []⟩, []⟩

private theorem account_directory :
    directory (fun _ => true) account = some ⟨"http".toList, "gwmd:3000".toList, [[]], []⟩ := rfl

private theorem photo_requested :
    (fetchInboundMedia (fun _ => true) (fun _ => .failed "") account "statics/media/1785-abc.jpg").request =
      some (requested ["app", "statics", "media", "1785-abc.jpg"]) := rfl

end Sample

theorem photo_under_statics : ∃ base, directory (fun _ => true) Sample.account = some base ∧
    UnderStatics base (Sample.requested ["app", "statics", "media", "1785-abc.jpg"]).url := by
  apply (requested_under_statics_iff _ _ _ _ _ Sample.photo_requested).mpr
  exact ⟨_, Sample.account_directory, rfl, ["media".toList, "1785-abc.jpg".toList], by simp, rfl⟩

/-- An encoded dot segment passes the check and leads to the list of devices. -/
theorem devices_requested : ¬ ∀ valid sidecar account ref request,
    (fetchInboundMedia valid sidecar account ref).request = some request →
      ∃ base, directory valid account = some base ∧ UnderStatics base request.url := by
  intro h
  obtain ⟨base, hbase, -, -, rest, -, hpath⟩ := h (fun _ => true) (fun _ => .failed "") Sample.account
    "statics/%2e%2e/devices" (Sample.requested ["app", "devices"]) rfl
  obtain rfl := Option.some.inj (Sample.account_directory.symm.trans hbase)
  have hsecond : "devices".toList = "statics".toList := Option.some.inj (congrArg (·[1]?) hpath)
  exact absurd hsecond (by decide)

end MessagingGateway.Adapters.Gwmd
