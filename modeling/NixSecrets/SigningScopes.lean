import NixSecrets.SshAuth

namespace NixSecrets.SshAuth

open Inventory

def requestIdentities : UInt8 := 11

def signRequest : UInt8 := 13

def sshsigMagic : List UInt8 := bytes "SSHSIG"

/-- The namespace in which the agent confirms a login approval. -/
def loginApprovalNamespace : String := "nix-secrets-login-approval@sirati.me"

def takeString (input : List UInt8) : Checked String (List UInt8 × List UInt8) := do
  Checked.refuseIf (input.length < 4) "truncated agent message"
  let length ← Checked.orPanic (byteRange input 0 4)
  let length ← Checked.orPanic (fromBigEndian length)
  let value ← Checked.orRefuse "truncated agent message" (byteRange input 4 (4 + length))
  let input ← Checked.orPanic (bytesFrom input (4 + length))
  return (value, input)

def stripBytes (front input : List UInt8) : Option (List UInt8) :=
  if front.isPrefixOf input then some (input.drop front.length) else none

/-- Whether an agent request may be relayed for a commit. -/
def permitted (message : List UInt8) : Checked String Unit :=
  match message with
  | [] => Checked.refuse "empty agent request"
  | kind :: input =>
    if kind = requestIdentities ∧ input = [] then .ok ()
    else if kind = signRequest then do
      let (_, input) ← takeString input
      let (data, input) ← takeString input
      Checked.refuseIf (input.length ≠ 4) "malformed sign request"
      let data ← Checked.orRefuse "only git commit signatures may be signed"
        (stripBytes sshsigMagic data)
      let (space, _) ← takeString data
      Checked.refuseIf (space ≠ bytes "git") "only the git signature namespace may be signed"
    else Checked.refuse ("agent request type " ++ toString kind.toNat ++ " is not allowed")

/-- The agent request for a signature of the data. -/
def signingRequest (key data flags : List UInt8) : List UInt8 :=
  signRequest :: (prefixed 4 key ++ (prefixed 4 data ++ flags))

abbrev Digest512 := { digest : List UInt8 // digest.length = 64 }

/-- What the agent is asked to sign once a login was approved. -/
def confirmationData (digest : Digest512) : List UInt8 :=
  sshsigMagic ++ prefixedAll 4 [bytes loginApprovalNamespace, [], bytes "sha512", digest.val]

def agentConfirmation (libs : Libraries) (sha512 : List UInt8 → Digest512)
    (request : LoginGrantRequest) (grant : String) : Checked String (List UInt8) := do
  let key ← keyBlob libs request.publicKey
  let statement := "approve SSH logins to " ++ request.destination ++ " for " ++ grant
  return signingRequest key (confirmationData (sha512 (bytes statement))) [0, 0, 0, 0]

/-- How a user authenticates: with the key alone, or bound to a key of the server. -/
def methodName : Option (List UInt8) → String
  | none => "publickey"
  | some _ => "publickey-hostbound-v00@openssh.com"

/-- The data of one user authentication, as SSH encodes it. -/
def authenticationData (user : List Char) (key session : List UInt8) (server : Option (List UInt8)) :
    List UInt8 :=
  prefixed 4 session ++ 50 :: (prefixed 4 (bytes (String.ofList user)) ++
    (prefixed 4 (bytes "ssh-connection") ++ (prefixed 4 (bytes (methodName server)) ++
      1 :: (prefixed 4 (bytes "ssh-ed25519") ++ (prefixed 4 key ++ prefixedAll 4 server.toList)))))

/-- The message asks for one login with the key and the user of the request. -/
def SignatureRequest.AsksLogin (libs : Libraries) (isHostKey : List UInt8 → Bool)
    (request : SignatureRequest) : Prop :=
  ∃ user key session server, destinationUser request.destination = .ok user ∧
    keyBlob libs request.publicKey = .ok key ∧ (session.length = 32 ∨ session.length = 64) ∧
    (∀ hostKey ∈ server, isHostKey hostKey = true) ∧ request.message.length ≤ maxMessage ∧
    request.message = signingRequest key (authenticationData user key session server) [0, 0, 0, 0]

/-- The message is signed as a login of some user with some key. -/
def SignedAsLogin (libs : Libraries) (isHostKey : List UInt8 → Bool) (message : List UInt8) : Prop :=
  ∃ publicKey destination, SignatureRequest.validate libs isHostKey
    ⟨publicKey, destination, message⟩ = .ok ()

def SignedAsCommit (message : List UInt8) : Prop := permitted message = .ok ()

/-- The message has the format in which the agent is asked to confirm an approval. -/
def SignedAsConfirmation (message : List UInt8) : Prop :=
  ∃ key digest, key.length < 256 ^ 4 ∧ message = signingRequest key (confirmationData digest) [0, 0, 0, 0]

/-- What is read at the start of the input is there, behind its length. -/
theorem read_prefixed {input length value rest : List UInt8} {size : Nat}
    (hlength : byteRange input 0 4 = some length) (hsize : fromBigEndian length = some size)
    (hvalue : byteRange input 4 (4 + size) = some value) (hrest : bytesFrom input (4 + size) = some rest) :
    input = prefixed 4 value ++ rest ∧ value.length < 256 ^ 4 := by
  have hfour := (byteRange_length hlength).1
  have hread : readBigEndian length = size := by
    rw [fromBigEndian, if_pos hfour] at hsize
    exact Option.some.inj hsize
  have hbound := readBigEndian_lt length
  have hwritten := bigEndian_readBigEndian length
  rw [hfour, hread] at hwritten
  rw [hfour, hread] at hbound
  have hcount := (byteRange_length hvalue).1
  have hsame : value.length = size := by omega
  have hfront : input.take 4 = length := by
    have hwhole := byteRange_split hlength
    rw [List.take_zero, List.nil_append] at hwhole
    have hlong : length.length = 4 := by omega
    rw [hwhole, ← hlong, List.take_left]
  have htail : input.drop (4 + size) = rest := by
    unfold bytesFrom at hrest
    split at hrest
    next => exact Option.some.inj hrest
    next => cases hrest
  refine ⟨?_, by omega⟩
  have hinput := byteRange_split hvalue
  rw [hfront, htail] at hinput
  rw [prefixed, hsame, hwritten, List.append_assoc]
  exact hinput

theorem prefixed_read {value rest : List UInt8} (h : value.length < 256 ^ 4) :
    byteRange (prefixed 4 value ++ rest) 0 4 = some (bigEndian 4 value.length) ∧
      fromBigEndian (bigEndian 4 value.length) = some value.length ∧
      byteRange (prefixed 4 value ++ rest) 4 (4 + value.length) = some value ∧
      bytesFrom (prefixed 4 value ++ rest) (4 + value.length) = some rest := by
  have hfour := bigEndian_length 4 value.length
  have hlength := byteRange_append [] (bigEndian 4 value.length) (value ++ rest)
  have hvalue := byteRange_append (bigEndian 4 value.length) value rest
  have hrest := bytesFrom_append (prefixed 4 value) rest
  rw [List.nil_append, List.length_nil, Nat.zero_add, hfour] at hlength
  rw [hfour] at hvalue
  rw [prefixed, List.length_append, hfour] at hrest
  rw [prefixed, List.append_assoc]
  rw [List.append_assoc] at hrest
  refine ⟨hlength, ?_, hvalue, hrest⟩
  rw [fromBigEndian, if_pos hfour, readBigEndian_bigEndian h]

theorem string_ok {input value rest : List UInt8} (h : string input = .ok (value, rest)) :
    input = prefixed 4 value ++ rest ∧ value.length < 256 ^ 4 := by
  obtain ⟨length, hlength, h⟩ := Checked.bind_ok h
  obtain ⟨size, hsize, h⟩ := Checked.bind_ok h
  obtain ⟨value', hvalue, h⟩ := Checked.bind_ok h
  obtain ⟨rest', hrest, h⟩ := Checked.bind_ok h
  cases h
  exact read_prefixed (Checked.orRefuse_ok hlength) (Checked.orPanic_ok hsize) (Checked.orRefuse_ok hvalue)
    (Checked.orPanic_ok hrest)

theorem string_prefixed {value : List UInt8} (h : value.length < 256 ^ 4) (rest : List UInt8) :
    string (prefixed 4 value ++ rest) = .ok (value, rest) := by
  obtain ⟨hlength, hsize, hvalue, hrest⟩ := @prefixed_read value rest h
  simp only [string, hlength, hsize, hvalue, hrest, Checked.orRefuse, Checked.orPanic, Checked.ok_bind]
  rfl

theorem takeString_ok {input value rest : List UInt8} (h : takeString input = .ok (value, rest)) :
    input = prefixed 4 value ++ rest ∧ value.length < 256 ^ 4 := by
  obtain ⟨_, _, h⟩ := Checked.bind_ok h
  obtain ⟨length, hlength, h⟩ := Checked.bind_ok h
  obtain ⟨size, hsize, h⟩ := Checked.bind_ok h
  obtain ⟨value', hvalue, h⟩ := Checked.bind_ok h
  obtain ⟨rest', hrest, h⟩ := Checked.bind_ok h
  cases h
  exact read_prefixed (Checked.orPanic_ok hlength) (Checked.orPanic_ok hsize) (Checked.orRefuse_ok hvalue)
    (Checked.orPanic_ok hrest)

theorem behind_ok {kind : UInt8} {message : String} {input rest : List UInt8}
    (h : behind kind message input = .ok rest) : input = kind :: rest := by
  obtain ⟨_, hkind, h⟩ := Checked.bind_ok h
  have hhead := Classical.not_not.mp (Checked.refuseIf_ok hkind)
  cases input with
  | nil => cases hhead
  | cons byte input =>
    have hrest := Checked.orPanic_ok h
    cases hhead
    rw [bytesFrom, if_pos (by simp)] at hrest
    cases hrest
    rfl

theorem behind_cons (kind : UInt8) (message : String) (rest : List UInt8) :
    behind kind message (kind :: rest) = .ok rest := by
  have hrest := bytesFrom_append [kind] rest
  rw [behind, Checked.refuseIf, if_neg (by simp)]
  show Checked.orPanic (bytesFrom (kind :: rest) 1) = _
  rw [show kind :: rest = [kind] ++ rest from rfl, show 1 = [kind].length from rfl, hrest]
  rfl

theorem signingRequest_inj {key data flags key' data' flags' : List UInt8}
    (hkey : key.length < 256 ^ 4) (hdata : data.length < 256 ^ 4) (hkey' : key'.length < 256 ^ 4)
    (hdata' : data'.length < 256 ^ 4)
    (h : signingRequest key data flags = signingRequest key' data' flags') : data = data' := by
  have htail := (List.cons.inj h).2
  have hrest := (prefixed_append_inj hkey hkey' htail).2
  exact (prefixed_append_inj hdata hdata' hrest).1

theorem stripBytes_ok {front input rest : List UInt8} (h : stripBytes front input = some rest) :
    input = front ++ rest := by
  unfold stripBytes at h
  split at h
  next hfront =>
    cases h
    exact (List.prefix_iff_eq_append.mp (List.isPrefixOf_iff_prefix.mp hfront)).symm
  next => cases h

/-- Besides the listing of the keys only a commit signature may be asked for. -/
theorem permitted_ok {message : List UInt8} (h : permitted message = .ok ()) :
    message = [requestIdentities] ∨ ∃ key rest flags,
      let data := sshsigMagic ++ (prefixed 4 (bytes "git") ++ rest)
      key.length < 256 ^ 4 ∧ data.length < 256 ^ 4 ∧ message = signingRequest key data flags := by
  cases message with
  | nil => cases h
  | cons kind input =>
    simp only [permitted] at h
    by_cases hlist : kind = requestIdentities ∧ input = []
    · left
      rw [hlist.1, hlist.2]
    · rw [if_neg hlist] at h
      by_cases hsign : kind = signRequest
      · rw [if_pos hsign] at h
        obtain ⟨⟨key, input'⟩, hkey, h⟩ := Checked.bind_ok h
        obtain ⟨⟨data, flags⟩, hdata, h⟩ := Checked.bind_ok h
        obtain ⟨_, _, h⟩ := Checked.bind_ok h
        obtain ⟨signed, hmagic, h⟩ := Checked.bind_ok h
        obtain ⟨⟨space, rest⟩, hspace, h⟩ := Checked.bind_ok h
        have hgit := Classical.not_not.mp (Checked.refuseIf_ok h)
        have hinput := takeString_ok hkey
        have hinput' : input' = prefixed 4 data ++ flags ∧ data.length < 256 ^ 4 := takeString_ok hdata
        have hsigned := (takeString_ok hspace).1
        have hwhole : data = sshsigMagic ++ signed := stripBytes_ok (Checked.orRefuse_ok hmagic)
        right
        refine ⟨key, rest, flags, hinput.2, ?_⟩
        rw [hsigned, show space = bytes "git" from hgit] at hwhole
        rw [← hwhole, signingRequest, hsign, hinput.1, hinput'.1]
        exact ⟨hinput'.2, rfl⟩
      · rw [if_neg hsign] at h
        cases h

theorem keyBlob_ok {libs : Libraries} {publicKey : String} {blob : List UInt8}
    (h : keyBlob libs publicKey = .ok blob) : blob.length < 256 ^ 4 := by
  obtain ⟨_, _, h⟩ := Checked.bind_ok h
  obtain ⟨_, _, h⟩ := Checked.bind_ok h
  obtain ⟨blob', _, h⟩ := Checked.bind_ok h
  obtain ⟨⟨name, input⟩, hname, h⟩ := Checked.bind_ok h
  obtain ⟨_, hsame, h⟩ := Checked.bind_ok h
  obtain ⟨⟨key, input'⟩, hkey, h⟩ := Checked.bind_ok h
  obtain ⟨_, hlength, h⟩ := Checked.bind_ok h
  cases h
  have hsame := Classical.not_not.mp (Checked.refuseIf_ok hsame)
  have hlength := Checked.refuseIf_ok hlength
  simp only [not_or, Classical.not_not] at hlength
  have hnamed : name.length = 11 := by
    rw [show name = bytes "ssh-ed25519" from hsame]
    decide
  rw [(string_ok hname).1, show input = _ from (string_ok hkey).1, hlength.2]
  simp only [prefixed, List.length_append, bigEndian_length, List.length_nil, hnamed, hlength.1]
  omega

theorem agentConfirmation_format {libs : Libraries} {sha512 : List UInt8 → Digest512}
    {request : LoginGrantRequest} {grant : String} {message : List UInt8}
    (h : agentConfirmation libs sha512 request grant = .ok message) : SignedAsConfirmation message := by
  obtain ⟨key, hkey, h⟩ := Checked.bind_ok h
  cases h
  exact ⟨key, _, keyBlob_ok hkey, rfl⟩

theorem confirmationData_length (digest : Digest512) : (confirmationData digest).length < 256 ^ 4 := by
  have hmagic : sshsigMagic.length = 6 := by decide
  have hspace : (bytes loginApprovalNamespace).length = 36 := by decide
  have hname : (bytes "sha512").length = 6 := by decide
  have hdigest := digest.property
  simp only [confirmationData, prefixedAll, List.flatMap_cons, List.flatMap_nil, prefixed,
    List.length_append, bigEndian_length, List.length_nil]
  omega

theorem signedMethod_ok {user : List Char} {data rest : List UInt8} {hostBound : Bool}
    (h : signedMethod user data = .ok (hostBound, rest)) :
    ∃ session method, (session.length = 32 ∨ session.length = 64) ∧
      data = prefixed 4 session ++ 50 :: (prefixed 4 (bytes (String.ofList user)) ++
        (prefixed 4 (bytes "ssh-connection") ++ (prefixed 4 method ++ 1 :: rest))) ∧
      (hostBound = false ∧ method = bytes "publickey" ∨
        hostBound = true ∧ method = bytes "publickey-hostbound-v00@openssh.com") := by
  obtain ⟨⟨session, data₁⟩, hsession, h⟩ := Checked.bind_ok h
  obtain ⟨_, hlength, h⟩ := Checked.bind_ok h
  obtain ⟨data₂, hkind, h⟩ := Checked.bind_ok h
  obtain ⟨⟨name, data₃⟩, hname, h⟩ := Checked.bind_ok h
  obtain ⟨_, hsame, h⟩ := Checked.bind_ok h
  obtain ⟨⟨service, data₄⟩, hservice, h⟩ := Checked.bind_ok h
  obtain ⟨_, hconnection, h⟩ := Checked.bind_ok h
  obtain ⟨⟨method, data₅⟩, hmethod, h⟩ := Checked.bind_ok h
  obtain ⟨_, hknown, h⟩ := Checked.bind_ok h
  obtain ⟨data₆, hasked, h⟩ := Checked.bind_ok h
  cases h
  have hlength := Checked.refuseIf_ok hlength
  have hsame : name = _ := Classical.not_not.mp (Checked.refuseIf_ok hsame)
  have hconnection : service = _ := Classical.not_not.mp (Checked.refuseIf_ok hconnection)
  have hknown := Checked.refuseIf_ok hknown
  have hdata₁ : data₁ = _ := behind_ok hkind
  have hdata₂ : data₂ = _ := (string_ok hname).1
  have hdata₃ : data₃ = _ := (string_ok hservice).1
  have hdata₄ : data₄ = _ := (string_ok hmethod).1
  have hdata₅ : data₅ = _ := behind_ok hasked
  refine ⟨session, method, ?_, ?_, ?_⟩
  · by_cases hshort : session.length = 32
    · exact Or.inl hshort
    · exact Or.inr (Classical.not_not.mp fun hlong => hlength ⟨hshort, hlong⟩)
  · rw [(string_ok hsession).1, hdata₁, hdata₂, hsame, hdata₃, hconnection, hdata₄, hdata₅]
  · by_cases hplain : method = bytes "publickey"
    · left
      exact ⟨by simp [hplain], hplain⟩
    · right
      exact ⟨by simp [hplain], Classical.not_not.mp fun hother => hknown ⟨hplain, hother⟩⟩

theorem asksLogin_of_validate {libs : Libraries} {isHostKey : List UInt8 → Bool}
    {request : SignatureRequest} (h : request.validate libs isHostKey = .ok ()) :
    request.AsksLogin libs isHostKey := by
  obtain ⟨user, huser, h⟩ := Checked.bind_ok h
  obtain ⟨_, hsmall, h⟩ := Checked.bind_ok h
  obtain ⟨key, hkey, h⟩ := Checked.bind_ok h
  obtain ⟨input, hkind, h⟩ := Checked.bind_ok h
  obtain ⟨⟨asked, input₁⟩, hasked, h⟩ := Checked.bind_ok h
  obtain ⟨_, hsame, h⟩ := Checked.bind_ok h
  obtain ⟨⟨data, flags⟩, hdata, h⟩ := Checked.bind_ok h
  obtain ⟨_, hflags, h⟩ := Checked.bind_ok h
  obtain ⟨⟨hostBound, rest⟩, hmethod, h⟩ := Checked.bind_ok h
  obtain ⟨⟨algorithm, rest₁⟩, halgorithm, h⟩ := Checked.bind_ok h
  obtain ⟨_, hed25519, h⟩ := Checked.bind_ok h
  obtain ⟨⟨signer, rest₂⟩, hsigner, h⟩ := Checked.bind_ok h
  obtain ⟨_, howner, h⟩ := Checked.bind_ok h
  have hsame : asked = _ := Classical.not_not.mp (Checked.refuseIf_ok hsame)
  have hflags : flags = _ := Classical.not_not.mp (Checked.refuseIf_ok hflags)
  have hed25519 : algorithm = _ := Classical.not_not.mp (Checked.refuseIf_ok hed25519)
  have howner : signer = _ := Classical.not_not.mp (Checked.refuseIf_ok howner)
  have hsmall := Nat.le_of_not_lt (Checked.refuseIf_ok hsmall)
  have hmessage : request.message = _ := behind_ok hkind
  have hinput₁ : input₁ = _ := (string_ok hdata).1
  have hrest : rest = _ := (string_ok halgorithm).1
  have hrest₁ : rest₁ = _ := (string_ok hsigner).1
  obtain ⟨session, method, hsession, hsigned, hbound⟩ := signedMethod_ok hmethod
  have hwhole : request.message = signingRequest key (prefixed 4 session ++ 50 ::
      (prefixed 4 (bytes (String.ofList user)) ++ (prefixed 4 (bytes "ssh-connection") ++
        (prefixed 4 method ++ 1 :: (prefixed 4 (bytes "ssh-ed25519") ++ (prefixed 4 key ++ rest₂))))))
      [0, 0, 0, 0] := by
    rw [hmessage, (string_ok hasked).1, hsame, hinput₁, hsigned, hflags, hrest, hed25519, hrest₁, howner]
    rfl
  rcases hbound with ⟨hplain, hname⟩ | ⟨hhost, hname⟩
  · subst hplain
    have hend : rest₂ = [] := Classical.not_not.mp (Checked.refuseIf_ok h)
    rw [hname, hend] at hwhole
    exact ⟨user, key, session, none, huser, hkey, hsession, nofun, hsmall, hwhole⟩
  · subst hhost
    obtain ⟨⟨server, rest₃⟩, hserver, h⟩ := Checked.bind_ok h
    obtain ⟨_, hvalid, h⟩ := Checked.bind_ok h
    have hend : rest₃ = [] := Classical.not_not.mp (Checked.refuseIf_ok h)
    have hvalid := Checked.refuseIf_ok hvalid
    have hrest₂ : rest₂ = _ := (string_ok hserver).1
    rw [hname, hrest₂, hend] at hwhole
    refine ⟨user, key, session, some server, huser, hkey, hsession, ?_, hsmall, hwhole⟩
    intro hostKey hhost
    cases hhost
    exact eq_true_of_ne_false hvalid

/-- Every part of a message that may be sent is short enough to have its length in front. -/
theorem authenticationData_small {user : List Char} {key session flags : List UInt8}
    {server : Option (List UInt8)}
    (h : (signingRequest key (authenticationData user key session server) flags).length ≤ maxMessage) :
    key.length < 256 ^ 4 ∧ (authenticationData user key session server).length < 256 ^ 4 ∧
      session.length < 256 ^ 4 ∧ (bytes (String.ofList user)).length < 256 ^ 4 ∧
      ∀ hostKey ∈ server, hostKey.length < 256 ^ 4 := by
  have hdata : (authenticationData user key session server).length ≤ maxMessage := by
    simp only [signingRequest, prefixed, List.length_cons, List.length_append, bigEndian_length] at h
    omega
  have hparts := hdata
  simp only [authenticationData, prefixed, prefixedAll, List.length_cons, List.length_append,
    bigEndian_length] at hparts
  simp only [maxMessage] at hdata hparts
  refine ⟨by omega, by omega, by omega, by omega, ?_⟩
  intro hostKey hhost
  cases hhost
  simp only [Option.toList_some, List.flatMap_cons, List.flatMap_nil, prefixed, List.length_append,
    bigEndian_length] at hparts
  omega

theorem signedMethod_data {user : List Char} {session : List UInt8} (server : Option (List UInt8))
    (rest : List UInt8) (hsession : session.length = 32 ∨ session.length = 64)
    (huser : (bytes (String.ofList user)).length < 256 ^ 4) :
    signedMethod user (prefixed 4 session ++ 50 :: (prefixed 4 (bytes (String.ofList user)) ++
      (prefixed 4 (bytes "ssh-connection") ++ (prefixed 4 (bytes (methodName server)) ++ 1 :: rest)))) =
      .ok (server.isSome, rest) := by
  have hshort : session.length < 256 ^ 4 := by omega
  have hservice : (bytes "ssh-connection").length < 256 ^ 4 := by decide
  have hlength : ¬ (session.length ≠ 32 ∧ session.length ≠ 64) := by omega
  have hmethod : (bytes (methodName server)).length < 256 ^ 4 ∧
      ¬ (bytes (methodName server) ≠ bytes "publickey" ∧
        bytes (methodName server) ≠ bytes "publickey-hostbound-v00@openssh.com") ∧
      decide (bytes (methodName server) ≠ bytes "publickey") = server.isSome := by
    cases server with
    | none => decide
    | some hostKey =>
      have hname : methodName (some hostKey) = "publickey-hostbound-v00@openssh.com" := rfl
      rw [hname, Option.isSome_some]
      decide
  simp only [signedMethod, string_prefixed hshort, string_prefixed huser, string_prefixed hservice,
    string_prefixed hmethod.1, behind_cons, Checked.ok_bind, Checked.refuseIf_of_not _ hlength,
    Checked.refuseIf_of_not _ hmethod.2.1, hmethod.2.2]
  simp [Checked.refuseIf]

theorem validate_of_asksLogin {libs : Libraries} {isHostKey : List UInt8 → Bool}
    {request : SignatureRequest} (h : request.AsksLogin libs isHostKey) :
    request.validate libs isHostKey = .ok () := by
  obtain ⟨user, key, session, server, huser, hkey, hsession, hserver, hsmall, hmessage⟩ := h
  have hlarge := Nat.not_lt_of_le hsmall
  rw [hmessage] at hsmall hlarge
  obtain ⟨hshort, hdata, _, hname, hhost⟩ := authenticationData_small hsmall
  have hed25519 : (bytes "ssh-ed25519").length < 256 ^ 4 := by decide
  simp only [SignatureRequest.validate, huser, hkey, hmessage, Checked.ok_bind,
    Checked.refuseIf_of_not _ hlarge]
  simp only [signingRequest, signRequest, behind_cons, Checked.ok_bind, string_prefixed hshort,
    string_prefixed hdata]
  simp only [authenticationData, signedMethod_data server _ hsession hname, Checked.ok_bind,
    string_prefixed hshort, string_prefixed hed25519]
  simp only [Checked.refuseIf, ne_eq, not_true, if_false, Checked.ok_bind]
  cases server with
  | none => rfl
  | some hostKey =>
    have hvalid := hserver hostKey rfl
    have hprefixed : prefixedAll 4 (some hostKey).toList = prefixed 4 hostKey ++ [] := by
      simp [prefixedAll]
    rw [hprefixed, string_prefixed (hhost hostKey rfl)]
    simp [hvalid]

theorem signedAsLogin_data {libs : Libraries} {isHostKey : List UInt8 → Bool} {message : List UInt8}
    (h : SignedAsLogin libs isHostKey message) :
    ∃ key rest, let data := 0 :: rest
      key.length < 256 ^ 4 ∧ data.length < 256 ^ 4 ∧ message = signingRequest key data [0, 0, 0, 0] := by
  obtain ⟨publicKey, destination, h⟩ := h
  obtain ⟨user, key, session, server, _, _, hsession, _, hsmall, hmessage⟩ := asksLogin_of_validate h
  have hmessage : message = _ := hmessage
  have hsmall : message.length ≤ maxMessage := hsmall
  rw [hmessage] at hsmall
  obtain ⟨hshort, hdata, _⟩ := authenticationData_small hsmall
  have hfirst : ∃ rest, authenticationData user key session server = 0 :: rest := by
    rcases hsession with hsession | hsession
    all_goals
      rw [authenticationData, prefixed, hsession]
      exact ⟨_, rfl⟩
  obtain ⟨rest, hrest⟩ := hfirst
  rw [hrest] at hdata hmessage
  exact ⟨key, rest, hshort, hdata, hmessage⟩

/-- No message is signed for two purposes, and a login is asked for exactly by its SSH encoding. -/
theorem signing_scopes_disjoint (libs : Libraries) (isHostKey : List UInt8 → Bool)
    (sha512 : List UInt8 → Digest512) :
    (∀ message, ¬ (SignedAsCommit message ∧ SignedAsLogin libs isHostKey message) ∧
      ¬ (SignedAsCommit message ∧ SignedAsConfirmation message) ∧
      ¬ (SignedAsLogin libs isHostKey message ∧ SignedAsConfirmation message)) ∧
    (∀ request grant message, agentConfirmation libs sha512 request grant = .ok message →
      SignedAsConfirmation message) ∧
    ∀ request, SignatureRequest.validate libs isHostKey request = .ok () ↔
      request.AsksLogin libs isHostKey := by
  refine ⟨fun message => ⟨?_, ?_, ?_⟩, ?_, ?_⟩
  · intro ⟨hcommit, hlogin⟩
    obtain ⟨key, rest, hkey, hdata, hmessage⟩ := signedAsLogin_data hlogin
    rcases permitted_ok hcommit with hlist | ⟨key', rest', flags, hkey', hdata', hmessage'⟩
    · rw [hmessage] at hlist
      cases hlist
    · rw [hmessage] at hmessage'
      have hsame := signingRequest_inj hkey hdata hkey' hdata' hmessage'
      cases (List.cons.inj hsame).1
  · intro ⟨hcommit, key, digest, hkey, hmessage⟩
    have hdata := confirmationData_length digest
    rcases permitted_ok hcommit with hlist | ⟨key', rest', flags, hkey', hdata', hmessage'⟩
    · rw [hmessage] at hlist
      cases hlist
    · rw [hmessage] at hmessage'
      have hsame := signingRequest_inj hkey hdata hkey' hdata' hmessage'
      have hspace := List.append_cancel_left hsame
      have hgit := (prefixed_append_inj (by decide) (by decide) hspace).1
      exact absurd hgit (by decide)
  · intro ⟨hlogin, key', digest, hkey', hmessage'⟩
    obtain ⟨key, rest, hkey, hdata, hmessage⟩ := signedAsLogin_data hlogin
    rw [hmessage] at hmessage'
    have hsame := signingRequest_inj hkey hdata hkey' (confirmationData_length digest) hmessage'
    cases (List.cons.inj hsame).1
  · intro request grant message h
    exact agentConfirmation_format h
  · intro request
    exact ⟨asksLogin_of_validate, validate_of_asksLogin⟩

end NixSecrets.SshAuth
