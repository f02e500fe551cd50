import Isulad.Spec.Capabilities

/-!
# Fetching a manifest

`fetchManifest` is `fetch_manifest` of `registry_apiv2.c`. The registry answers as it
likes: every request may fail and may leave any file behind. The HTTP and JSON
parsers, the platform of the host and `sha256` are parameters.
-/

namespace Isulad.Registry

open Isulad.Spec (Text strcaseEq)

/-- `strstr`, the rest of a text from the first occurrence on. -/
def strstr (needle : Text) : Text → Option Text
  | [] => if needle.isEmpty then some [] else none
  | char :: rest =>
    if needle.isPrefixOf (char :: rest) then some (char :: rest) else strstr needle rest

/-- `PATH_MAX`. -/
def pathMax : Nat := 4096

/-- `MAX_ACCEPT_LEN`. -/
def maxAcceptLen : Nat := 128

/-- `RETRY_TIMES`. -/
def retryTimes : Nat := 5

/-- `util_read_text_file` and the C string it gives. -/
def utilReadTextFile (file : Text) : Option Text :=
  if 10 * 1024 * 1024 < file.length then none else some (file.takeWhile (· != '\x00'))

/-- `SHA256_PREFIX`. -/
def sha256Mark : Text := "sha256:".toList

/-- A lower-case hexadecimal digit. -/
def isHexDigit (char : Char) : Bool := char.isDigit || ('a' ≤ char && char ≤ 'f')

/-- `util_valid_digest`, the pattern `^sha256:([a-f0-9]{64})$`. -/
def utilValidDigest (digest : Text) : Bool :=
  sha256Mark.isPrefixOf digest && (digest.drop 7).length == 64 && (digest.drop 7).all isHexDigit

/-- `DOCKER_MANIFEST_SCHEMA1_JSON`. -/
def dockerManifestSchema1Json : Text :=
  "application/vnd.docker.distribution.manifest.v1+json".toList

/-- `DOCKER_MANIFEST_SCHEMA1_PRETTYJWS`, a signed manifest. -/
def dockerManifestSchema1Prettyjws : Text :=
  "application/vnd.docker.distribution.manifest.v1+prettyjws".toList

/-- `DOCKER_MANIFEST_SCHEMA2_JSON`. -/
def dockerManifestSchema2Json : Text :=
  "application/vnd.docker.distribution.manifest.v2+json".toList

/-- `DOCKER_MANIFEST_SCHEMA2_LIST`. -/
def dockerManifestSchema2List : Text :=
  "application/vnd.docker.distribution.manifest.list.v2+json".toList

/-- `OCI_MANIFEST_V1_JSON`. -/
def ociManifestV1Json : Text := "application/vnd.oci.image.manifest.v1+json".toList

/-- `MEDIA_TYPE_APPLICATION_JSON`. -/
def mediaTypeApplicationJson : Text := "application/json".toList

/-- `OCI_INDEX_V1_JSON`. -/
def ociIndexV1Json : Text := "application/vnd.oci.image.index.v1+json".toList

/-- `check_content_type`. -/
def checkContentType (contentType : Text) : Bool :=
  [dockerManifestSchema1Json, dockerManifestSchema1Prettyjws, dockerManifestSchema2Json,
    dockerManifestSchema2List, ociManifestV1Json, mediaTypeApplicationJson,
    ociIndexV1Json].contains contentType

/-- The content is a list of manifests, one of which has to be selected. -/
def isManifestList (contentType : Text) : Bool :=
  contentType == dockerManifestSchema2List || contentType == ociIndexV1Json

/-- One request for a file: whether it succeeds, what the file holds afterwards, and
whether the pull has been cancelled by then. -/
structure Attempt where
  ok : Bool
  file : Text
  cancelled : Bool := false

/-- `parsed_http_message`. -/
structure Message where
  statusCode : Nat
  headers : List (Text × Text)

/-- The `platform` of a list entry. -/
structure Platform where
  architecture : Option Text
  os : Option Text
  variant : Option Text := none

/-- An entry of a manifest list or image index. -/
structure ManifestEntry where
  mediaType : Option Text
  digest : Option Text
  platform : Option Platform

/-- `util_normalized_host_os_arch`. -/
structure Host where
  os : Text
  arch : Text
  variant : Option Text := none

/-- What a fetch meets: the answers to the request for the reference and to that for the
selected manifest, and the code outside the repository. -/
structure Environment where
  reference : Nat → Attempt
  selected : Nat → Attempt
  parseHttp : Text → Option Message
  ociImageIndexParse : Text → Option (List ManifestEntry)
  registryManifestListParse : Text → Option (List ManifestEntry)
  host : Option Host
  sha256 : Text → Text

variable (env : Environment) (message : Message) (desc : Reference)

/-- `sha256_full_file_digest`. -/
def Environment.fullDigest (file : Text) : Text := sha256Mark ++ env.sha256 file

/-- The fields of `pull_descriptor` that name the manifest. -/
structure Reference where
  name : Text
  tag : Text
  blobpath : Text

/-- The `manifest` of a `pull_descriptor`, with the content of its file. -/
structure Manifest where
  mediaType : Text
  digest : Option Text
  file : Text

/-- The retry loop: a request that fails, or whose file is not accepted, is repeated
while the pull goes on. The error is the last request. -/
def retry (accepts : Text → Bool) (attempts : Nat → Attempt) : (tried left : Nat) →
    Except Attempt Text
  | tried, 0 => .error (attempts tried)
  | tried, left + 1 =>
    let attempt := attempts tried
    if attempt.ok && accepts attempt.file then .ok attempt.file
    else if 0 < left && !attempt.cancelled then retry accepts attempts (tried + 1) left
    else .error attempt

/-- `util_write_file` over a file. Without content the file is not even opened. -/
def utilWriteFile (file content : Text) : Text :=
  if content.isEmpty then file else content

/-- `split_head_body`, the head of the response and what the file holds afterwards: the
body, or still the whole response where the body is empty. -/
def splitHeadBody (file : Text) : Except Text (Text × Text) :=
  match utilReadTextFile file with
  | none => .error "read file failed".toList
  | some all =>
    match strstr "HTTP/1.1".toList all with
    | none => .error "No HTTP/1.1 found".toList
    | some head =>
      match strstr "\r\n\r\n".toList head, strstr "\n\n".toList head with
      | some rest, _ =>
        .ok (head.take (head.length - (rest.drop 4).length), utilWriteFile file (rest.drop 4))
      | none, some rest =>
        .ok (head.take (head.length - (rest.drop 2).length), utilWriteFile file (rest.drop 2))
      | none, none => .error "No body found".toList

/-- `get_parsed_message`. The parser sees the text up to the first empty line. -/
def getParsedMessage (httpHead : Text) : Option Message :=
  match strstr "HTTP/1.1".toList httpHead with
  | none => none
  | some message =>
    match strstr "\r\n\r\n".toList message with
    | none => env.parseHttp message
    | some rest => env.parseHttp (message.take (message.length - (rest.drop 4).length))

/-- `get_header_value`. -/
def getHeaderValue (header : Text) : Option Text :=
  (message.headers.find? fun entry => strcaseEq entry.1 header).map (·.2)

/-- The value of the `Docker-Content-Digest` header. -/
def contentDigest : Option Text :=
  getHeaderValue message "Docker-Content-Digest".toList

/-- `parse_manifest_head` on a parsed message: the content type and the digest. A digest
that is not valid is reported, but the call still succeeds without one. -/
def parseManifestHead : Except Text (Text × Option Text) :=
  if message.statusCode ≠ 200 then
    if message.statusCode = 404 then .error "Image not found in registry".toList
    else .error ("registry response invalid status code ".toList ++
      Nat.toDigits 10 message.statusCode)
  else
    match getHeaderValue message "Content-Type".toList with
    | none => .error "Get content type from message header failed".toList
    | some contentType =>
      if !checkContentType contentType then
        .error ("Unsupported content type: ".toList ++ contentType)
      else
        match contentDigest message with
        | none => .ok (contentType, none)
        | some value =>
          if !utilValidDigest value then .ok (contentType, none)
          else .ok (contentType, some value)

/-- The path of a manifest in the registry, if it fits. -/
def manifestPath (name reference : Text) : Option Text :=
  let path := "/v2/".toList ++ name ++ "/manifests/".toList ++ reference
  if path.length < pathMax then some path else none

/-- The head of the registry's answer for the reference, and what the file holds. -/
def answer : Except Text (Message × Text) :=
  match manifestPath desc.name desc.tag with
  | none => .error "Failed to sprintf path for manifest".toList
  | some path =>
    match retry (fun _ => true) env.reference 0 retryTimes with
    | .error _ => .error ("registry: Get ".toList ++ path ++ " failed".toList)
    | .ok file =>
      match splitHeadBody file with
      | .error error => .error error
      | .ok (httpHead, kept) =>
        match getParsedMessage env httpHead with
        | none => .error "parse http header message for manifests failed".toList
        | some message => .ok (message, kept)

/-- `fetch_manifest_list`: the content type, the digest and the file. -/
def fetchManifestList : Except Text (Text × Option Text × Text) :=
  match answer env desc with
  | .error error => .error error
  | .ok (message, kept) =>
    match parseManifestHead message with
    | .error error => .error error
    | .ok (contentType, digest) => .ok (contentType, digest, kept)

/-- The check of a fetched file. The digest of signed content is that of its payload and
is not compared. -/
def Environment.accepts (contentType : Text) (digest : Option Text) (file : Text) : Bool :=
  contentType == dockerManifestSchema1Prettyjws || digest.all (env.fullDigest file == ·)

/-- `fetch_data` into the manifest's file. -/
def fetchData (path contentType : Text) (digest : Option Text) : Except Text Text :=
  if maxAcceptLen ≤ ("Accept: ".toList ++ contentType).length then
    .error ("Failed to sprintf accept media type ".toList ++ contentType)
  else
    match retry (env.accepts contentType digest) env.selected 0 retryTimes with
    | .ok file => .ok file
    | .error attempt =>
      if attempt.ok then
        .error ("Invalid data fetched for ".toList ++ path ++
          ", this mainly caused by server error".toList)
      else .error ("Get ".toList ++ path ++ " failed".toList)

/-- `is_variant_same`. -/
def isVariantSame (variant1 variant2 : Option Text) : Bool :=
  match variant1, variant2 with
  | some one, some other => strcaseEq one other
  | _, _ => true

/-- The entry is for this host. -/
def matchesHost (host : Host) (entry : ManifestEntry) : Bool :=
  match entry.platform with
  | some { architecture := some architecture, os := some os, variant := variant } =>
    strcaseEq architecture host.arch && strcaseEq os host.os &&
      isVariantSame host.variant variant
  | _ => false

/-- The loop of `select_oci_manifest` and `select_docker_manifest`: the content type and
the digest of the first entry for this host. -/
def selectEntry (entries : List ManifestEntry) : Except Text (Text × Text) :=
  match env.host with
  | none => .error "Failed to get host os and arch".toList
  | some host =>
    match entries.find? (matchesHost host) with
    | none => .error "Cann't match any manifest".toList
    | some { mediaType := some mediaType, digest := some digest, platform := _ } =>
      .ok (mediaType, digest)
    | some _ => .error "Matched manifest have NULL digest or mediatype in manifest".toList

/-- `select_oci_manifest`. -/
def selectOciManifest (index : List ManifestEntry) : Except Text (Text × Text) :=
  selectEntry env index

/-- `select_docker_manifest`. -/
def selectDockerManifest (manifests : List ManifestEntry) : Except Text (Text × Text) :=
  selectEntry env manifests

/-- `select_manifest`. -/
def selectManifest (file contentType : Text) : Except Text (Text × Text) :=
  if contentType = ociIndexV1Json then
    match env.ociImageIndexParse file with
    | none => .error "parse oci image index failed".toList
    | some index => selectOciManifest env index
  else if contentType = dockerManifestSchema2List then
    match env.registryManifestListParse file with
    | none => .error "parse docker image manifest list failed".toList
    | some manifests => selectDockerManifest env manifests
  else .error ("Unexpected content type ".toList ++ contentType)

/-- `fetch_manifest_data`. -/
def fetchManifestData (contentType : Text) (digest : Option Text) (file : Text) :
    Except Text Manifest :=
  if isManifestList contentType then
    match selectManifest env file contentType with
    | .error error => .error error
    | .ok (contentType, digest) =>
      match manifestPath desc.name digest with
      | none => .error "Failed to sprintf path for manifest".toList
      | some path =>
        match fetchData env path contentType (some digest) with
        | .error error => .error error
        | .ok file => .ok { mediaType := contentType, digest := some digest, file := file }
  else .ok { mediaType := contentType, digest := digest, file := file }

/-- `fetch_manifest`. -/
def fetchManifest : Except Text Manifest :=
  if pathMax ≤ (desc.blobpath ++ "/manifests".toList).length then
    .error "Failed to sprintf file for manifest".toList
  else
    match fetchManifestList env desc with
    | .error error => .error error
    | .ok (contentType, digest, file) => fetchManifestData env desc contentType digest file

/-- Within so many requests one succeeds with a file that is accepted, none did before it,
and the pull went on until then. -/
def Serves (accepts : Text → Bool) (attempts : Nat → Attempt) (tries : Nat) (file : Text) :
    Prop :=
  ∃ n < tries, ((attempts n).ok && accepts (attempts n).file) = true ∧ (attempts n).file = file ∧
    ∀ m < n, ((attempts m).ok && accepts (attempts m).file) = false ∧
      (attempts m).cancelled = false

/-- The first request serves the file, or it does not, the pull goes on, and the others
serve it. -/
theorem serves_succ_iff {accepts : Text → Bool} {attempts : Nat → Attempt} {tries : Nat}
    {file : Text} :
    Serves accepts attempts (tries + 1) file ↔
      if (attempts 0).ok && accepts (attempts 0).file then (attempts 0).file = file
      else (attempts 0).cancelled = false ∧
        Serves accepts (fun n => attempts (n + 1)) tries file := by
  split
  next hit =>
    constructor
    · rintro ⟨n, -, -, same, before⟩
      cases n with
      | zero => exact same
      | succ n => cases hit.symm.trans (before 0 n.succ_pos).1
    · exact fun same => ⟨0, tries.succ_pos, hit, same, fun m below => absurd below m.not_lt_zero⟩
  next missed =>
    have missed := Bool.eq_false_iff.mpr missed
    constructor
    · rintro ⟨n, below, hit, same, before⟩
      cases n with
      | zero => cases missed.symm.trans hit
      | succ n =>
        exact ⟨(before 0 n.succ_pos).2, n, Nat.lt_of_succ_lt_succ below, hit, same,
          fun m lower => before (m + 1) (Nat.succ_lt_succ lower)⟩
    · rintro ⟨goesOn, n, below, hit, same, before⟩
      refine ⟨n + 1, Nat.succ_lt_succ below, hit, same, fun m lower => ?_⟩
      cases m with
      | zero => exact ⟨missed, goesOn⟩
      | succ m => exact before m (Nat.lt_of_succ_lt_succ lower)

theorem retry_eq_ok_iff_serves {accepts : Text → Bool} {attempts : Nat → Attempt}
    {tried left : Nat} {file : Text} :
    retry accepts attempts tried left = .ok file ↔
      Serves accepts (fun n => attempts (tried + n)) left file := by
  induction left generalizing tried with
  | zero => exact iff_of_false nofun fun ⟨n, below, _⟩ => absurd below n.not_lt_zero
  | succ left ih =>
    have shift : (fun n => attempts (tried + 1 + n)) = fun n => attempts (tried + (n + 1)) :=
      funext fun n => by rw [Nat.add_assoc, Nat.add_comm 1]
    rw [retry, serves_succ_iff, ← shift, ← ih]
    dsimp only [Nat.add_zero]
    by_cases hit : ((attempts tried).ok && accepts (attempts tried).file) = true
    · rw [if_pos hit, if_pos hit, Except.ok.injEq]
    rw [if_neg hit, if_neg hit]
    split
    next goesOn =>
      have going : (attempts tried).cancelled = false := by simp_all
      exact (and_iff_right going).symm
    next stops =>
      refine iff_of_false nofun fun ⟨going, rest⟩ => ?_
      cases left with
      | zero => cases rest
      | succ left => exact stops (by simp [going])

theorem retry_eq_ok_iff {accepts : Text → Bool} {attempts : Nat → Attempt} {tries : Nat}
    {file : Text} :
    retry accepts attempts 0 tries = .ok file ↔ Serves accepts attempts tries file := by
  simpa using @retry_eq_ok_iff_serves accepts attempts 0 tries file

theorem retry_accepts {accepts : Text → Bool} {attempts : Nat → Attempt} {tried left : Nat}
    {file : Text} (fetched : retry accepts attempts tried left = .ok file) :
    accepts file = true := by
  obtain ⟨n, -, hit, rfl, -⟩ := retry_eq_ok_iff_serves.mp fetched
  exact (Bool.and_eq_true_iff.mp hit).2

variable {env : Environment} {contentType : Text} {desc : Reference}

section

variable (env : Environment) (desc : Reference)

/-- The registry serves a response for the reference: it has a head, and leaves this in the
file. -/
def Responds (message : Message) (kept : Text) : Prop :=
  (manifestPath desc.name desc.tag).isSome = true ∧
    ∃ response httpHead, Serves (fun _ => true) env.reference retryTimes response ∧
      splitHeadBody response = .ok (httpHead, kept) ∧
      getParsedMessage env httpHead = some message

/-- The response is one that a manifest can be taken from. -/
def IsUsable (message : Message) (contentType : Text) : Prop :=
  message.statusCode = 200 ∧ getHeaderValue message "Content-Type".toList = some contentType ∧
    checkContentType contentType = true

/-- The list has an entry for this host, and the registry serves its manifest. -/
def ServesEntry (contentType kept : Text) (manifest : Manifest) : Prop :=
  ∃ digest, manifest.digest = some digest ∧
    selectManifest env kept contentType = .ok (manifest.mediaType, digest) ∧
    (manifestPath desc.name digest).isSome = true ∧
    ("Accept: ".toList ++ manifest.mediaType).length < maxAcceptLen ∧
    Serves (env.accepts manifest.mediaType (some digest)) env.selected retryTimes manifest.file

end

theorem answer_eq_ok_iff {message : Message} {kept : Text} :
    answer env desc = .ok (message, kept) ↔ Responds env desc message kept := by
  unfold answer Responds
  simp only [← retry_eq_ok_iff]
  constructor
  · intro answered
    split at answered
    · cases answered
    rename_i path named
    split at answered
    · cases answered
    rename_i response served
    split at answered
    · cases answered
    rename_i httpHead _ parts
    split at answered
    · cases answered
    rename_i parsed
    cases answered
    exact ⟨named ▸ rfl, response, httpHead, served, parts, parsed⟩
  · rintro ⟨named, response, httpHead, served, parts, parsed⟩
    obtain ⟨path, named⟩ := Option.isSome_iff_exists.mp named
    simp only [named, served, parts, parsed]

/-- The head has the type of the response and its digest where that is valid. -/
theorem parseManifestHead_eq_ok_iff {message : Message} {digest : Option Text} :
    parseManifestHead message = .ok (contentType, digest) ↔
      IsUsable message contentType ∧ digest = (contentDigest message).filter utilValidDigest := by
  unfold parseManifestHead
  constructor
  · intro parsed
    split at parsed
    · split at parsed <;> cases parsed
    rename_i status
    split at parsed
    · cases parsed
    rename_i given
    split at parsed
    · cases parsed
    rename_i supported
    have usable : IsUsable message _ :=
      ⟨Decidable.not_not.mp status, given, by simpa using supported⟩
    split at parsed
    next missing =>
      cases parsed
      exact ⟨usable, by rw [missing]; rfl⟩
    next value found =>
      split at parsed
      all_goals
        rename_i validity
        cases parsed
        exact ⟨usable, by simp_all [Option.filter]⟩
  · rintro ⟨⟨status, given, supported⟩, rfl⟩
    rw [if_neg (not_not_intro status), given]
    dsimp only
    rw [if_neg (by simp [supported])]
    cases contentDigest message with
    | none => rfl
    | some value => cases valid : utilValidDigest value <;> simp [valid, Option.filter]

theorem fetchData_eq_ok_iff {path : Text} {digest : Option Text} {file : Text} :
    fetchData env path contentType digest = .ok file ↔
      ("Accept: ".toList ++ contentType).length < maxAcceptLen ∧
        Serves (env.accepts contentType digest) env.selected retryTimes file := by
  rw [← retry_eq_ok_iff]
  unfold fetchData
  split
  next long => exact iff_of_false nofun fun fits => absurd fits.1 (Nat.not_lt.mpr long)
  next fits =>
    rw [and_iff_right (Nat.lt_of_not_le fits)]
    split
    next fetched => rw [fetched, Except.ok.injEq, Except.ok.injEq]
    next failed =>
      rw [failed]
      refine iff_of_false ?_ nofun
      split <;> nofun

theorem fetchManifestData_eq_ok_iff {digest : Option Text} {kept : Text} {manifest : Manifest} :
    fetchManifestData env desc contentType digest kept = .ok manifest ↔
      if isManifestList contentType then ServesEntry env desc contentType kept manifest
      else manifest = { mediaType := contentType, digest := digest, file := kept } := by
  unfold fetchManifestData
  split
  next =>
    constructor
    · intro fetched
      split at fetched
      · cases fetched
      rename_i selected
      split at fetched
      · cases fetched
      rename_i path named
      split at fetched
      · cases fetched
      rename_i loaded
      cases fetched
      exact ⟨_, rfl, selected, named ▸ rfl, fetchData_eq_ok_iff.mp loaded⟩
    · rintro ⟨digest, recorded, selected, named, serves⟩
      obtain ⟨path, named⟩ := Option.isSome_iff_exists.mp named
      have loaded := (@fetchData_eq_ok_iff env _ path _ _).mpr serves
      simp only [selected, named, loaded]
      rw [← recorded]
  next => exact ⟨fun same => (Except.ok.inj same).symm, fun same => same ▸ rfl⟩

/-- A fetch succeeds exactly on a usable response, with the manifest that it is or with
one that it lists. -/
theorem fetchManifest_eq_ok_iff {manifest : Manifest} :
    fetchManifest env desc = .ok manifest ↔
      (desc.blobpath ++ "/manifests".toList).length < pathMax ∧
        ∃ message kept contentType, Responds env desc message kept ∧
          IsUsable message contentType ∧
          if isManifestList contentType then ServesEntry env desc contentType kept manifest
          else manifest = { mediaType := contentType
                            digest := (contentDigest message).filter utilValidDigest
                            file := kept } := by
  unfold fetchManifest fetchManifestList
  split
  next long => exact iff_of_false nofun fun fits => absurd fits.1 (Nat.not_lt.mpr long)
  next fits =>
    rw [and_iff_right (Nat.lt_of_not_le fits)]
    constructor
    · intro fetched
      split at fetched
      · cases fetched
      rename_i listed
      split at listed
      · cases listed
      rename_i answered
      split at listed
      · cases listed
      rename_i parsed
      cases listed
      obtain ⟨usable, rfl⟩ := parseManifestHead_eq_ok_iff.mp parsed
      exact ⟨_, _, _, answer_eq_ok_iff.mp answered, usable, fetchManifestData_eq_ok_iff.mp fetched⟩
    · rintro ⟨message, kept, contentType, responds, usable, rest⟩
      have parsed := parseManifestHead_eq_ok_iff.mpr ⟨usable, rfl⟩
      simp only [answer_eq_ok_iff.mpr responds, parsed]
      exact fetchManifestData_eq_ok_iff.mpr rest

/-- Content of a response that is not a signed manifest. -/
def IsUnsigned : Prop :=
  getHeaderValue message "Content-Type".toList ≠ some dockerManifestSchema1Prettyjws

/-- A fetch that succeeds records the digest of its file, and was given for a digest the
document of that digest. A response with a malformed digest is refused. -/
structure RecordsDigest (env : Environment) (desc : Reference) : Prop where
  recorded : ∀ manifest, fetchManifest env desc = .ok manifest →
    manifest.mediaType ≠ dockerManifestSchema1Prettyjws →
    manifest.digest = some (env.fullDigest manifest.file)
  addressed : ∀ manifest, fetchManifest env desc = .ok manifest →
    utilValidDigest desc.tag = true → ∀ message kept, Responds env desc message kept →
    IsUnsigned message → env.fullDigest kept = desc.tag
  refused : ∀ message kept value, Responds env desc message kept →
    contentDigest message = some value → utilValidDigest value = false →
    ∃ error, fetchManifest env desc = .error error

/-- The registry delivers a manifest for the reference: a usable response, and where this is
a list also the manifest of its entry for this host. -/
structure Delivers (env : Environment) (desc : Reference) (message : Message)
    (contentType kept : Text) : Prop where
  fits : (desc.blobpath ++ "/manifests".toList).length < pathMax
  responds : Responds env desc message kept
  usable : IsUsable message contentType
  entry : isManifestList contentType = true →
    ∃ manifest, ServesEntry env desc contentType kept manifest

/-- A response that can be trusted: a digest in its header is well formed and, for an
unsigned manifest, there and that of the file; unsigned content for a digest has it. -/
structure IsHonest (env : Environment) (desc : Reference) (message : Message)
    (contentType kept : Text) : Prop where
  header : ∀ value ∈ contentDigest message, utilValidDigest value = true
  single : isManifestList contentType = false → contentType ≠ dockerManifestSchema1Prettyjws →
    contentDigest message = some (env.fullDigest kept)
  addressed : utilValidDigest desc.tag = true → contentType ≠ dockerManifestSchema1Prettyjws →
    env.fullDigest kept = desc.tag

theorem Responds.unique {message message' : Message} {kept kept' : Text}
    (responds : Responds env desc message kept) (other : Responds env desc message' kept') :
    message' = message ∧ kept' = kept := by
  have same := (answer_eq_ok_iff.mpr other).symm.trans (answer_eq_ok_iff.mpr responds)
  exact Prod.mk.inj (Except.ok.inj same)

theorem IsUsable.unsigned_iff {message : Message} (usable : IsUsable message contentType) :
    IsUnsigned message ↔ contentType ≠ dockerManifestSchema1Prettyjws := by
  rw [IsUnsigned, usable.2.1, ne_eq, Option.some_inj]

theorem Delivers.fetched {message : Message} {kept : Text}
    (delivers : Delivers env desc message contentType kept) :
    ∃ manifest, fetchManifest env desc = .ok manifest ∧ (isManifestList contentType = false →
      manifest = { mediaType := contentType
                   digest := (contentDigest message).filter utilValidDigest
                   file := kept }) := by
  cases listed : isManifestList contentType with
  | true =>
    obtain ⟨manifest, serves⟩ := delivers.entry listed
    refine ⟨manifest, fetchManifest_eq_ok_iff.mpr ⟨delivers.fits, message, kept, contentType,
      delivers.responds, delivers.usable, ?_⟩, nofun⟩
    rwa [if_pos listed]
  | false =>
    refine ⟨_, fetchManifest_eq_ok_iff.mpr ⟨delivers.fits, message, kept, contentType,
      delivers.responds, delivers.usable, ?_⟩, fun _ => rfl⟩
    rw [if_neg (Bool.eq_false_iff.mp listed)]

/-- A manifest that was fetched was delivered. One from a list has been checked. -/
theorem delivers_of_fetchManifest {manifest : Manifest}
    (fetched : fetchManifest env desc = .ok manifest) :
    ∃ message contentType kept, Delivers env desc message contentType kept ∧
      (isManifestList contentType = false →
        manifest = { mediaType := contentType
                     digest := (contentDigest message).filter utilValidDigest
                     file := kept }) ∧
      (isManifestList contentType = true → manifest.mediaType ≠ dockerManifestSchema1Prettyjws →
        manifest.digest = some (env.fullDigest manifest.file)) := by
  obtain ⟨fits, message, kept, contentType, responds, usable, rest⟩ :=
    fetchManifest_eq_ok_iff.mp fetched
  split at rest
  next listed =>
    refine ⟨message, contentType, kept, ⟨fits, responds, usable, fun _ => ⟨manifest, rest⟩⟩,
      fun single => absurd single (by simp [listed]), fun _ unsigned => ?_⟩
    obtain ⟨digest, recorded, -, -, -, n, -, hit, same, -⟩ := rest
    have accepted := (Bool.and_eq_true_iff.mp hit).2
    have checked : env.fullDigest manifest.file = digest := by
      simpa [Environment.accepts, unsigned, same] using accepted
    rw [recorded, checked]
  next single =>
    exact ⟨message, contentType, kept, ⟨fits, responds, usable, fun listed => absurd listed single⟩,
      fun _ => rest, fun listed => absurd listed single⟩

/-- A fetch records digests as it should exactly when what the registry delivers can be
trusted, which the fetch itself does not check. -/
theorem recordsDigest_iff (env : Environment) (desc : Reference) :
    RecordsDigest env desc ↔ ∀ message contentType kept,
      Delivers env desc message contentType kept →
        IsHonest env desc message contentType kept := by
  constructor
  · intro records message contentType kept delivers
    obtain ⟨manifest, fetched, single⟩ := delivers.fetched
    refine ⟨fun value given => ?_, fun isSingle unsigned => ?_, fun byDigest unsigned => ?_⟩
    · by_contra malformed
      obtain ⟨error, failed⟩ := records.refused message kept value delivers.responds given
        (by simpa using malformed)
      cases fetched.symm.trans failed
    · have recorded := records.recorded manifest fetched
      rw [single isSingle] at recorded
      exact (Option.filter_eq_some_iff.mp (recorded unsigned)).1
    · exact records.addressed manifest fetched byDigest message kept delivers.responds
        (delivers.usable.unsigned_iff.mpr unsigned)
  · intro honest
    refine ⟨fun manifest fetched unsigned => ?_, fun manifest fetched byDigest => ?_, ?_⟩
    · obtain ⟨message, contentType, kept, delivers, single, listed⟩ :=
        delivers_of_fetchManifest fetched
      cases isList : isManifestList contentType with
      | true => exact listed isList unsigned
      | false =>
        have trusted := honest message contentType kept delivers
        rw [single isList] at unsigned ⊢
        have stated := trusted.single isList unsigned
        exact Option.filter_eq_some_iff.mpr ⟨stated, trusted.header _ stated⟩
    · intro message kept responds unsigned
      obtain ⟨message', contentType, kept', delivers, -⟩ := delivers_of_fetchManifest fetched
      obtain ⟨rfl, rfl⟩ := delivers.responds.unique responds
      exact (honest message contentType kept delivers).addressed byDigest
        (delivers.usable.unsigned_iff.mp unsigned)
    · intro message kept value responds given malformed
      cases fetched : fetchManifest env desc with
      | error error => exact ⟨error, rfl⟩
      | ok manifest =>
        obtain ⟨message', contentType, kept', delivers, -⟩ := delivers_of_fetchManifest fetched
        obtain ⟨rfl, rfl⟩ := delivers.responds.unique responds
        have valid := (honest message contentType kept delivers).header value given
        cases malformed.symm.trans valid

/-- A registry that answers every request with a manifest and a digest that is none. -/
def carelessRegistry : Environment where
  reference _ := { ok := true, file := "HTTP/1.1 200 OK\r\n\r\n\x7b\x7d".toList }
  selected _ := { ok := false, file := [] }
  parseHttp _ := some
    { statusCode := 200
      headers := [("Content-Type".toList, dockerManifestSchema2Json),
        ("Docker-Content-Digest".toList, "sha256:0".toList)] }
  ociImageIndexParse _ := none
  registryManifestListParse _ := none
  host := none
  sha256 file := file

/-- A pull by the digest of some other manifest. -/
def pullByDigest : Reference where
  name := "library/busybox".toList
  tag := sha256Mark ++ .replicate 64 'a'
  blobpath := "/var/lib/isulad".toList

/-- The malformed header is accepted, no digest is recorded, and the manifest is not the
one that was asked for. -/
theorem fetchManifest_accepts_careless :
    (∃ manifest, fetchManifest carelessRegistry pullByDigest = .ok manifest ∧
      manifest.digest = none ∧ carelessRegistry.fullDigest manifest.file ≠ pullByDigest.tag) ∧
      ¬ RecordsDigest carelessRegistry pullByDigest := by
  have fetched : fetchManifest carelessRegistry pullByDigest = .ok
      { mediaType := dockerManifestSchema2Json, digest := none, file := "\x7b\x7d".toList } := by
    rfl
  refine ⟨⟨_, fetched, rfl, by decide⟩, fun records => ?_⟩
  cases records.recorded _ fetched (by decide)

end Isulad.Registry
