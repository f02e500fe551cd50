import Isulad.Path.Fields
import Isulad.Spec.Capabilities
import Mathlib.Data.List.Induction
import Mathlib.Data.List.ReduceOption

/-!
# The credential store

The file of user/password pairs of `auths.c`. It is missing, or it holds hosts with
encoded pairs, read and written as a whole by the JSON code. The store is compared
with a map from hosts to pairs, along any sequence of saves and deletes.
-/

namespace Isulad.Registry

open Isulad.Path (utilStringSplit utilStringSplit_eq_cons_cons)
open Isulad.Spec (Text)
open List Isulad.Std Prod

/-- AES and base64, which read back what they wrote. -/
structure Codec where
  base64Encode : Text → Text
  base64Decode : Text → Option Text
  /-- Encryption with a random initial vector. -/
  aesEncode : Text → Text → Text
  aesDecode : Text → Option Text
  base64_roundTrip : ∀ text, base64Decode (base64Encode text) = some text
  aes_roundTrip : ∀ iv text, aesDecode (aesEncode iv text) = some text

/-- The size of the buffer that joins a user and a password, `PATH_MAX`. -/
def plainTextMax : Nat := 4096

/-- `MAX_AUTHS_LEN`. -/
def maxAuthsLen : Nat := 65536

/-- The text of a pair, `"%s:%s"`. -/
def plainText (username password : Text) : Text := username ++ ':' :: password

variable (codec : Codec) (auths : Auths) (file : AuthFile)

/-- `encode_auth_aes`. -/
def encodeAuthAes (iv username password : Text) : Option Text :=
  if plainTextMax ≤ (plainText username password).length then none
  else some (codec.base64Encode (codec.aesEncode iv (codec.base64Encode
    (plainText username password))))

/-- The pair that `util_string_split` reads off a text. -/
def splitAuth (text : Text) : Option (Text × Text) :=
  match utilStringSplit text ':' with
  | [username, password] => some (username, password)
  | _ => none

/-- `decode_auth_aes`. -/
def decodeAuthAes (encoded : Text) : Option (Text × Text) :=
  match codec.base64Decode encoded with
  | none => none
  | some decoded =>
    match codec.aesDecode decoded with
    | none => none
    | some auth =>
      match codec.base64Decode auth with
      | none => none
      | some text => splitAuth text

/-- The entries of `registry_auths`, hosts with encoded pairs. -/
abbrev Auths := List (Text × Text)

/-- The file at `g_auth_path`, if it exists. -/
abbrev AuthFile := Option Auths

/-- The loop of `auths_load`. A pair that does not decode ends it. -/
def loadAuth (codec : Codec) (host : Text) (found : Option (Text × Text)) :
    Auths → Option (Text × Text)
  | [] => found
  | (key, auth) :: auths =>
    if host = key then
      match decodeAuthAes codec auth with
      | none => found
      | some pair => loadAuth codec host (some pair) auths
    else loadAuth codec host found auths

/-- `auths_load`, which reports success whatever it finds. -/
def authsLoad (host : Text) : Option (Text × Text) :=
  match file with
  | none => none
  | some auths => loadAuth codec host none auths

/-- The loop of `add_auth`: the entries with the host's pair replaced, if it has one. -/
def replaceAuth (host auth : Text) : Auths → Option Auths
  | [] => none
  | (key, old) :: auths =>
    if host = key then some ((host, auth) :: auths)
    else (replaceAuth host auth auths).map ((key, old) :: ·)

/-- `add_allocated_auth`. -/
def addAllocatedAuth (host auth : Text) : Option Auths :=
  if maxAuthsLen ≤ auths.length then none else some (auths ++ [(host, auth)])

/-- `add_auth`. -/
def addAuth (host auth : Text) : Option Auths :=
  match replaceAuth host auth auths with
  | some auths => some auths
  | none => addAllocatedAuth auths host auth

/-- `auths_save`: whether it succeeds, and the file afterwards. -/
def authsSave (host username password iv : Text) : Bool × AuthFile :=
  match encodeAuthAes codec iv username password with
  | none => (false, file)
  | some auth =>
    match addAuth (file.getD []) host auth with
    | none => (false, file)
    | some auths => (true, some auths)

/-- A turn of the second loop of `delete_auth`, over slots some of which are freed. -/
def compactTurn {α : Type} (state : List (Option α) × Nat) (i : Nat) : List (Option α) × Nat :=
  match state.1[state.2]? with
  | some (some _) => (state.1, state.2 + 1)
  | _ =>
    match state.1[i]? with
    | some (some entry) => ((state.1.set state.2 (some entry)).set i none, state.2 + 1)
    | _ => state

/-- The second loop of `delete_auth`: the slots and their new number. -/
def compactSlots {α : Type} (slots : List (Option α)) : List (Option α) × Nat :=
  (range slots.length).foldl compactTurn (slots, 0)

/-- `delete_auth`. -/
def deleteAuth (host : Text) : Auths :=
  let slots := auths.map fun entry => if host = entry.1 then none else some entry
  if slots.all Option.isSome then auths
  else ((compactSlots slots).1.take (compactSlots slots).2).reduceOption

/-- `auths_delete`. -/
def authsDelete (host : Text) : Bool × AuthFile :=
  match file with
  | none => (true, none)
  | some auths => (true, some (deleteAuth auths host))

/-- A call that changes the store. A save draws its initial vector. -/
inductive AuthCall where
  | save (host username password iv : Text)
  | delete (host : Text)

/-- The host of a call. -/
def AuthCall.host : AuthCall → Text
  | .save host _ _ _ => host
  | .delete host => host

/-- What a call returns and does to the file. -/
def AuthCall.exec : AuthCall → Bool × AuthFile
  | .save host username password iv => authsSave codec file host username password iv
  | .delete host => authsDelete file host

/-- Hosts with their pairs. -/
abbrev Credentials := Text → Option (Text × Text)

/-- A call that succeeds changes the pair of its host. -/
def Credentials.apply (credentials : Credentials) (succeeds : Bool) : AuthCall → Credentials
  | .save host username password _ => fun other =>
    if succeeds ∧ other = host then some (username, password) else credentials other
  | .delete host => fun other => if succeeds ∧ other = host then none else credentials other

/-- The file and the map after calls on an empty store. -/
def runAuths (calls : List AuthCall) : AuthFile × Credentials :=
  calls.foldl (fun state call =>
    ((call.exec codec state.1).2, state.2.apply (call.exec codec state.1).1 call))
    (none, fun _ => none)

variable {α : Type}

theorem replicate_append_cons (count : Nat) (value : α) (rest : List α) :
    .replicate count value ++ value :: rest = .replicate (count + 1) value ++ rest := by
  rw [replicate_succ', append_assoc, singleton_append]

/-- A turn moves the slot it reads to the end of those kept so far. -/
theorem compactTurn_eq (kept : List α) (freed : Nat) (slot : Option α) (rest : List (Option α)) :
    compactTurn (kept.map some ++ (.replicate freed none ++ slot :: rest), kept.length)
        (kept.length + freed) =
      match slot with
      | none => (kept.map some ++ (.replicate (freed + 1) none ++ rest), kept.length)
      | some entry =>
        ((kept ++ [entry]).map some ++ (.replicate freed none ++ rest), kept.length + 1) := by
  have atTurn : (kept.map some ++ (.replicate freed none ++ slot :: rest))[kept.length + freed]? =
      some slot := by
    simp
  unfold compactTurn
  cases freed with
  | zero => cases slot <;> simp
  | succ freed =>
    have atCount : (kept.map some ++
        (.replicate (freed + 1) none ++ slot :: rest))[kept.length]? = some none := by
      simp [replicate_succ]
    rw [atCount, atTurn]
    cases slot with
    | none => rw [replicate_append_cons]
    | some entry =>
      -- the entry goes to the first free slot and leaves its own free
      have first : (.replicate (freed + 1) none ++ some entry :: rest).set 0 (some entry) =
          some entry :: (.replicate freed none ++ some entry :: rest) := by
        simp [replicate_succ]
      have second : (.replicate freed none ++ some entry :: rest).set freed none =
          .replicate (freed + 1) none ++ rest := by
        rw [set_append_right _ _ (by simp), ← replicate_append_cons]
        simp
      simp only [map_append, map_cons, map_nil, append_assoc,
        singleton_append, Prod.mk.injEq, and_true]
      rw [set_append_right _ _ (by simp), set_append_right _ _ (by simp)]
      simp [first, second]

/-- The loop keeps the used slots in order and counts them. -/
theorem compactSlots_foldl (slots : List (Option α)) {turns : Nat} (within : turns ≤ slots.length) :
    let kept := (slots.take turns).reduceOption
    (range turns).foldl compactTurn (slots, 0) =
      (kept.map some ++ (replicate (turns - kept.length) none ++ slots.drop turns),
        kept.length) := by
  induction turns with
  | zero => simp
  | succ turns ih =>
    have before := ih (by omega)
    have bound : (slots.take turns).reduceOption.length ≤ turns := by
      exact Nat.le_trans (reduceOption_length_le _) (length_take_le _ _)
    obtain ⟨slot, here⟩ : ∃ slot, slots[turns]? = some slot :=
      ⟨slots[turns], getElem?_eq_getElem (by omega)⟩
    have read : slots.take (turns + 1) = slots.take turns ++ [slot] := by
      rw [take_add_one, here]
      rfl
    have left : slots.drop turns = slot :: slots.drop (turns + 1) := by
      rw [drop_eq_getElem_cons (by omega)]
      rw [getElem?_eq_getElem (by omega)] at here
      rw [Option.some.inj here]
    have turn := compactTurn_eq (slots.take turns).reduceOption
      (turns - (slots.take turns).reduceOption.length) slot (slots.drop (turns + 1))
    rw [Nat.add_sub_cancel' bound] at turn
    rw [range_succ, foldl_append, before, left, foldl_cons, foldl_nil, turn,
      read, reduceOption_append]
    cases slot with
    | none => simp [Nat.succ_sub bound]
    | some entry => simp

theorem reduceOption_marked (host : Text) :
    (auths.map fun entry => if host = entry.1 then none else some entry).reduceOption =
      auths.filter fun entry => host ≠ entry.1 := by
  induction auths with
  | nil => rfl
  | cons entry auths ih =>
    by_cases hit : host = entry.1
    · simpa [hit] using ih
    · simpa [hit] using ih

theorem deleteAuth_eq (host : Text) :
    deleteAuth auths host = auths.filter fun entry => host ≠ entry.1 := by
  unfold deleteAuth
  dsimp only
  split
  next untouched =>
    rw [all_map, all_eq_true] at untouched
    refine (filter_eq_self.mpr fun entry member => ?_).symm
    have used := untouched entry member
    by_contra hit
    simp_all
  · have all := compactSlots_foldl
      (auths.map fun entry => if host = entry.1 then none else some entry) (Nat.le_refl _)
    rw [compactSlots, all]
    rw [take_append_of_le_length (by simp), take_of_length_le (by simp), take_length,
      reduceOption_marked]
    simp [reduceOption]

variable {host auth : Text} {auths replaced added : Auths}

/-- The encoded pair of a host. -/
def authOf (host : Text) : Option Text := (file.getD []).lookup host

theorem lookup_cons_if (key auth : Text) (auths : Auths) (other : Text) :
    lookup other ((key, auth) :: auths) =
      if other = key then some auth else auths.lookup other := by
  by_cases same : other = key
  · simp [same]
  · rw [lookup_cons, beq_false_of_ne same, if_neg same]

theorem lookup_eq_none_of_replaceAuth (missing : replaceAuth host auth auths = none) :
    auths.lookup host = none := by
  induction auths with
  | nil => rfl
  | cons entry auths ih =>
    unfold replaceAuth at missing
    split at missing
    · cases missing
    rename_i other
    rw [Option.map_eq_none_iff] at missing
    rw [lookup_cons_if, if_neg other]
    exact ih missing

/-- Replacing keeps the hosts and changes one of them. -/
theorem lookup_replaceAuth (replaces : replaceAuth host auth auths = some replaced) :
    replaced.map fst = auths.map fst ∧
      ∀ other, replaced.lookup other = if other = host then some auth else auths.lookup other := by
  induction auths generalizing replaced with
  | nil => cases replaces
  | cons entry auths ih =>
    obtain ⟨key, old⟩ := entry
    unfold replaceAuth at replaces
    split at replaces
    next same =>
      cases replaces
      subst same
      refine ⟨rfl, fun other => ?_⟩
      rw [lookup_cons_if, lookup_cons_if]
      split <;> rfl
    next different =>
      obtain ⟨rest, replacesRest, rfl⟩ := Option.map_eq_some_iff.mp replaces
      obtain ⟨keys, lookups⟩ := ih replacesRest
      refine ⟨by simp [keys], fun other => ?_⟩
      rw [lookup_cons_if, lookup_cons_if, lookups]
      by_cases isKey : other = key
      · subst isKey
        simp [Ne.symm different]
      · simp [isKey]

/-- What a successful addition does to the map. -/
theorem addAuth_spec (adds : addAuth auths host auth = some added)
    (distinct : (auths.map fst).Nodup) :
    (added.map fst).Nodup ∧
      ∀ other, added.lookup other = if other = host then some auth else auths.lookup other := by
  unfold addAuth at adds
  split at adds
  next replaces =>
    cases adds
    obtain ⟨keys, lookups⟩ := lookup_replaceAuth replaces
    exact ⟨keys ▸ distinct, lookups⟩
  next missing =>
    unfold addAllocatedAuth at adds
    split at adds
    · cases adds
    cases adds
    have fresh := lookup_eq_none_of_replaceAuth missing
    refine ⟨?_, fun other => ?_⟩
    · rw [map_append, nodup_append]
      refine ⟨distinct, by simp, ?_⟩
      rintro key member _ single rfl
      rw [map_cons, map_nil, mem_singleton] at single
      rw [lookup_eq_none_iff] at fresh
      obtain ⟨entry, isEntry, rfl⟩ := mem_map.mp member
      have different := fresh entry isEntry
      simp [single] at different
    · rw [lookup_append, lookup_cons_if]
      by_cases isHost : other = host
      · subst isHost
        simp [fresh]
      · simp [isHost]

theorem lookup_deleteAuth (auths : Auths) (host other : Text) :
    (deleteAuth auths host).lookup other = if other = host then none else auths.lookup other := by
  rw [deleteAuth_eq]
  induction auths with
  | nil => simp
  | cons entry auths ih =>
    obtain ⟨key, auth⟩ := entry
    by_cases hit : host = key
    · subst hit
      rw [filter_cons_of_neg (by simp), ih, lookup_cons_if]
      split <;> rfl
    · rw [filter_cons_of_pos (by simp [hit]), lookup_cons_if, lookup_cons_if]
      by_cases isKey : other = key
      · subst isKey
        simp [Ne.symm hit]
      · simpa [isKey] using ih

/-- With distinct hosts the load decodes the one pair of the host. -/
theorem loadAuth_eq (host : Text) (distinct : (auths.map fst).Nodup) :
    loadAuth codec host none auths = (auths.lookup host).bind (decodeAuthAes codec) := by
  have skip : ∀ (found : Option (Text × Text)) (rest : Auths), host ∉ rest.map fst →
      loadAuth codec host found rest = found := by
    intro found rest absent
    induction rest with
    | nil => rfl
    | cons entry rest ih =>
      rw [map_cons, mem_cons, not_or] at absent
      rw [loadAuth, if_neg absent.1]
      exact ih absent.2
  induction auths with
  | nil => rfl
  | cons entry auths ih =>
    obtain ⟨key, auth⟩ := entry
    rw [map_cons, nodup_cons] at distinct
    rw [loadAuth, lookup_cons_if]
    by_cases same : host = key
    · subst same
      rw [if_pos rfl, if_pos rfl, Option.bind_some]
      cases decodeAuthAes codec auth with
      | none => rfl
      | some pair => exact skip _ _ distinct.1
    · rw [if_neg same, if_neg same]
      exact ih distinct.2

variable {codec : Codec} {username password iv : Text}

theorem decodeAuthAes_of_encodeAuthAes
    (encoded : encodeAuthAes codec iv username password = some auth) :
    decodeAuthAes codec auth = splitAuth (plainText username password) := by
  unfold encodeAuthAes at encoded
  split at encoded
  · cases encoded
  cases encoded
  simp [decodeAuthAes, codec.base64_roundTrip, codec.aes_roundTrip]

/-- The pairs that splitting at colons reads back: no part is empty or has a colon. -/
def Splits (username password : Text) : Prop :=
  username ≠ [] ∧ password ≠ [] ∧ ':' ∉ password

theorem splitAuth_plainText_iff (plain : ':' ∉ username) :
    splitAuth (plainText username password) = some (username, password) ↔
      Splits username password := by
  have pieces : splitAuth (plainText username password) = some (username, password) ↔
      tokens ':' (plainText username password) = [username, password] := by
    rw [← utilStringSplit_eq_cons_cons]
    unfold splitAuth
    split
    next user word shape => simp [shape]
    next other => exact ⟨nofun, fun shape => absurd shape (other _ _)⟩
  rw [pieces, plainText, tokens_append_cons plain]
  by_cases empty : username = []
  · rw [if_pos empty, nil_append]
    refine ⟨fun shape => ?_, fun splits => absurd empty splits.1⟩
    have first : username ∈ tokens ':' password := by rw [shape]; exact mem_cons_self
    exact absurd empty (of_mem_tokens first).1
  · rw [if_neg empty, singleton_append, List.cons.injEq, Splits]
    simp [empty, tokens_eq_singleton_iff]

variable {credentials : Credentials} {file next : AuthFile}

/-- The file has each host once, with an encoding of the pair that the map has for it. -/
structure Stands (codec : Codec) (file : AuthFile) (credentials : Credentials) : Prop where
  distinct : ((file.getD []).map fst).Nodup
  missing : ∀ host, credentials host = none → authOf file host = none
  encoded : ∀ host username password, credentials host = some (username, password) →
    ∃ iv auth, encodeAuthAes codec iv username password = some auth ∧ authOf file host = some auth

/-- The file stands for the map with the pair of one host changed. -/
theorem Stands.update {pair : Option (Text × Text)} {auth : Option Text}
    (stands : Stands codec file credentials) (distinct : ((next.getD []).map fst).Nodup)
    (lookups : ∀ other, authOf next other = if other = host then auth else authOf file other)
    (missing : pair = none → auth = none)
    (encoded : ∀ username password, pair = some (username, password) → ∃ iv text, encodeAuthAes
      codec iv username password = some text ∧ auth = some text) :
    Stands codec next fun other => if other = host then pair else credentials other := by
  refine ⟨distinct, fun other none => ?_, fun other username password some => ?_⟩
  · rw [lookups]
    split at none
    next same =>
      rw [if_pos same]
      exact missing none
    next different =>
      rw [if_neg different]
      exact stands.missing other none
  · rw [lookups]
    split at some
    next same =>
      rw [if_pos same]
      exact encoded username password some
    next different =>
      rw [if_neg different]
      exact stands.encoded other username password some

theorem Stands.exec (stands : Stands codec file credentials) (call : AuthCall) :
    Stands codec (call.exec codec file).2
      (credentials.apply (call.exec codec file).1 call) := by
  cases call with
  | save host username password iv =>
    simp only [AuthCall.exec, authsSave]
    split
    · simpa [Credentials.apply] using stands
    rename_i auth encoded
    split
    · simpa [Credentials.apply] using stands
    rename_i added adds
    obtain ⟨distinct, lookups⟩ := addAuth_spec adds stands.distinct
    simp [Credentials.apply]
    refine stands.update distinct lookups nofun ?_
    intro _ _ same
    cases same
    exact ⟨iv, auth, encoded, rfl⟩
  | delete host =>
    simp only [AuthCall.exec, authsDelete]
    split
    · simp [Credentials.apply]
      have unchanged : ∀ other, authOf none other =
          if other = host then none else authOf none other := by simp [authOf]
      exact stands.update stands.distinct unchanged (fun _ => rfl) nofun
    next auths =>
      simp [Credentials.apply]
      refine stands.update ?_ (fun other => lookup_deleteAuth auths host other) (fun _ => rfl)
        nofun
      have distinct : (auths.map fst).Nodup := stands.distinct
      rw [Option.getD_some, deleteAuth_eq]
      exact distinct.sublist (filter_sublist.map _)

theorem stands_runAuths (codec : Codec) (calls : List AuthCall) :
    Stands codec (runAuths codec calls).1 (runAuths codec calls).2 := by
  induction calls using reverseRecOn with
  | nil => exact ⟨nodup_nil, fun _ _ => rfl, nofun⟩
  | append_singleton calls call ih =>
    unfold runAuths at ih ⊢
    rw [foldl_append]
    exact ih.exec call

/-- What a load makes of the pair that the map has for a host. -/
theorem Stands.authsLoad (stands : Stands codec file credentials) (host : Text) :
    authsLoad codec file host =
      (credentials host).bind fun pair => splitAuth (plainText pair.1 pair.2) := by
  have decoded : Registry.authsLoad codec file host =
      (authOf file host).bind (decodeAuthAes codec) := by
    cases file with
    | none => rfl
    | some auths => exact loadAuth_eq codec host stands.distinct
  rw [decoded]
  cases pair : credentials host with
  | none => rw [stands.missing host pair, Option.bind_none, Option.bind_none]
  | some pair' =>
    obtain ⟨username, password⟩ := pair'
    obtain ⟨iv, auth, encoded, found⟩ := stands.encoded host username password pair
    rw [found, Option.bind_some, Option.bind_some, decodeAuthAes_of_encodeAuthAes encoded]

theorem Credentials.apply_of_ne {call : AuthCall} (other : call.host ≠ host) (succeeds : Bool) :
    credentials.apply succeeds call host = credentials host := by
  cases call with
  | save _ username password iv => exact if_neg fun hit => other hit.2.symm
  | delete _ => exact if_neg fun hit => other hit.2.symm

/-- The saves have user names without a colon. -/
def PlainNames (calls : List AuthCall) : Prop :=
  ∀ host username password iv, .save host username password iv ∈ calls → ':' ∉ username

theorem plainNames_runAuths {calls : List AuthCall} (plain : PlainNames calls)
    (pair : (runAuths codec calls).2 host = some (username, password)) : ':' ∉ username := by
  induction calls using reverseRecOn with
  | nil => cases pair
  | append_singleton calls call ih =>
    have earlier : (runAuths codec calls).2 host = some (username, password) → ':' ∉ username :=
      ih fun host' user word iv member =>
        plain host' user word iv (mem_append_left _ member)
    rw [runAuths, foldl_append] at pair
    cases call with
    | save saved user word iv =>
      simp [Credentials.apply] at pair
      split at pair
      · cases pair
        exact plain saved username password iv
          (mem_append_right _ (mem_singleton_self _))
      · exact earlier pair
    | delete deleted =>
      simp only [foldl_cons, foldl_nil, Credentials.apply] at pair
      split at pair
      · cases pair
      · exact earlier pair

/-- After the calls a load returns what the map has for the host, and a further call on
another host does not change what it returns. -/
def BehavesAsMap (codec : Codec) (calls : List AuthCall) (host : Text) : Prop :=
  authsLoad codec (runAuths codec calls).1 host = (runAuths codec calls).2 host ∧
    ∀ call : AuthCall, call.host ≠ host →
      authsLoad codec (call.exec codec (runAuths codec calls).1).2 host =
        authsLoad codec (runAuths codec calls).1 host

/-- The store behaves as a map for a host exactly when the pair last saved for it has no
empty part and no colon in its password. -/
theorem behavesAsMap_iff (codec : Codec) {calls : List AuthCall} (plain : PlainNames calls)
    (host : Text) :
    BehavesAsMap codec calls host ↔
      ∀ username password, (runAuths codec calls).2 host = some (username, password) →
        Splits username password := by
  have stands := stands_runAuths codec calls
  have apart : ∀ call : AuthCall, call.host ≠ host →
      authsLoad codec (call.exec codec (runAuths codec calls).1).2 host =
        authsLoad codec (runAuths codec calls).1 host := by
    intro call other
    rw [(stands.exec call).authsLoad, Credentials.apply_of_ne other, stands.authsLoad]
  rw [BehavesAsMap, and_iff_left apart, stands.authsLoad]
  cases pair : (runAuths codec calls).2 host with
  | none => simp
  | some pair' =>
    obtain ⟨username, password⟩ := pair'
    rw [Option.bind_some, splitAuth_plainText_iff (plainNames_runAuths plain pair)]
    constructor
    · intro splits _ _ same
      cases same
      exact splits
    · intro all
      exact all username password rfl

/-- Texts as they are, for want of AES and base64. -/
def plainCodec : Codec where
  base64Encode text := text
  base64Decode text := some text
  aesEncode _ text := text
  aesDecode text := some text
  base64_roundTrip _ := rfl
  aes_roundTrip _ _ := rfl

/-- A password with a colon is saved, and no pair is loaded for it. -/
theorem authsLoad_misses_colon :
    let calls : List AuthCall := [.save "hub".toList "alice".toList "a:b".toList []]
    PlainNames calls ∧ (runAuths plainCodec calls).2 "hub".toList =
        some ("alice".toList, "a:b".toList) ∧
      authsLoad plainCodec (runAuths plainCodec calls).1 "hub".toList = none ∧
      ¬ BehavesAsMap plainCodec calls "hub".toList := by
  refine ⟨?_, by decide, by decide, fun behaves => absurd behaves.1 (by decide)⟩
  intro host username password iv member
  cases mem_singleton.mp member
  decide

/-- A pair is loaded after another host's pair was saved and deleted. -/
theorem behavesAsMap_iff_alice :
    let calls : List AuthCall :=
      [.save "hub".toList "alice".toList "secret".toList [],
        .save "other".toList "bob".toList "x".toList [], .delete "other".toList]
    authsLoad plainCodec (runAuths plainCodec calls).1 "hub".toList =
      some ("alice".toList, "secret".toList) := by
  intro calls
  have plain : PlainNames calls := by
    intro host username password iv member
    simp [calls] at member
    rcases member with ⟨-, rfl, -⟩ | ⟨-, rfl, -⟩ <;> decide
  have saved : (runAuths plainCodec calls).2 "hub".toList =
      some ("alice".toList, "secret".toList) := by decide
  refine ((behavesAsMap_iff plainCodec plain "hub".toList).mpr ?_).1
  intro username password pair
  cases saved.symm.trans pair
  exact ⟨by decide, by decide, by decide⟩

end Isulad.Registry
