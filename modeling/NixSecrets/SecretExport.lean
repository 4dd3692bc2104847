import Mathlib.Data.List.Perm.Subperm
import NixSecrets.Base64
import NixSecrets.StepNumbering
import NixSecrets.StoreDocument
import NixSecrets.Traversal

namespace NixSecrets.SecretExport

open Inventory

/-- Decrypted values by identifier. -/
abbrev Values := BTreeMap String (List UInt8)

def takeValue (seen : List String) (decoded : Values) (value : SecretValue) : Checked Refusal Values := do
  Checked.refuseIf (value.identifier ∉ seen)
    (.message ("the TUI returned " ++ value.identifier ++ " unasked"))
  let bytes ← Checked.orRefuse
    (.message ("the TUI returned a malformed value for " ++ value.identifier))
    (base64Decode value.valueBase64.toList)
  Checked.refuseIf (value.identifier ∈ decoded)
    (.message ("the TUI returned " ++ value.identifier ++ " twice"))
  return decoded.insert value.identifier bytes

def approval : SecretAnswer → Checked Refusal (List SecretValue)
  | .denied reason => Checked.refuse (.message reason)
  | .approved values => .ok values
  | .signed _ | .loginGranted _ _ | .artifactsSigned _ | .closureSigned _ | .confirmed =>
    Checked.refuse (.message "the TUI returned an unasked signature")

/-- The identifiers are distinct once checked, so the list stands for the set of them. -/
def approvedValues (answer : Except String SecretAnswer) (identifiers : List String)
    (reason : Option String) : Checked Refusal Values := do
  Checked.refuseIf (reason.any fun reason => maxRequestReasonBytes < reason.utf8ByteSize)
    (.message "secret request reason exceeds 4096 bytes")
  Checked.refuseIf (identifiers = [] ∨ maxRequestIdentifiers < identifiers.length)
    (.message "a secret request names between 1 and 256 identifiers")
  checkIdentifiers [] identifiers
  let answered ← (Checked.ofExcept answer).mapRefusal Refusal.message
  let values ← approval answered
  let decoded ← Checked.carry (takeValue identifiers) ∅ values
  Checked.refuseIf (decoded.size ≠ identifiers.length)
    (.message "the TUI did not return every requested value")
  return decoded

structure SecretSession where
  values : Values
  owner : Nat

/-- The backend's part: `answer` is what the operator channel returns if it is asked. -/
def request (schema : Inventory.Schema) (peer : Nat) (answer : Except String SecretAnswer)
    (socket : Except String Unit) (identifiers : List String) (reason : Option String) :
    Checked Refusal SecretSession := do
  Checked.each (refuseExport schema) identifiers
  let values ← approvedValues answer identifiers reason
  (Checked.ofExcept socket).mapRefusal fun error =>
    .message ("cannot create the secret session socket: " ++ error)
  return ⟨values, peer⟩

def checkPolicy (signing : Bool) (identifier : String) : LeafSpec → Checked Refusal Unit
  | .operator _ spec =>
    Checked.refuseIf (spec.signingOnly ∧ !signing)
      (.message (identifier ++ " is signing-only; plaintext export is forbidden"))
  | .stored _ spec =>
    Checked.refuseIf (spec.kind = .publicInfo)
      (.message (identifier ++ " is public information, not a secret"))
  | .generated _ _ => .ok ()

/-- One round of `load_with_policy`; `get` is the backend's answer for a path. -/
def loadWithPolicy (schema : Inventory.Schema) (get : SecretPath → Except String (Option EncryptedSecret))
    (signing : Bool) (identifier : String) : Checked Refusal (String × EncryptedSecret) := do
  let path ← (SecretPath.parse identifier).mapRefusal (.path identifier)
  let leaf ← (schema.leaf path).mapRefusal (.path identifier)
  checkPolicy signing identifier leaf
  let stored ← (Checked.ofExcept (get path)).mapRefusal Refusal.message
  let record ← Checked.orRefuse (.message (identifier ++ " is unset")) stored
  return (identifier, record)

/-- The session of `with-secrets --local`; the provider decrypts the records in one call. -/
def decryptLocally (schema : Inventory.Schema) (pid : Nat)
    (get : SecretPath → Except String (Option EncryptedSecret))
    (provider : List (String × EncryptedSecret) → Except String (List (List UInt8)))
    (identifiers : List String) : Checked Refusal SecretSession := do
  let records ← identifiers.mapM (loadWithPolicy schema get false)
  let plaintexts ← (Checked.ofExcept (provider records)).mapRefusal Refusal.message
  return ⟨Std.ExtTreeMap.ofList ((records.map Prod.fst).zip plaintexts) compare, pid⟩

inductive SessionRequest
  | get (identifier : String)
  deriving DecidableEq, Repr

inductive SessionResponse
  | value (valueBase64 : String)
  | error (message : String)
  deriving DecidableEq, Repr

/-- A connection to the socket: its peer, the process table at that moment, and what it sends. -/
structure Connection where
  peer : Option Nat
  parentPid : ParentPid
  sent : Except String (Option SessionRequest)

namespace SecretSession

def answer (session : SecretSession) (connection : Connection) : Option SessionResponse :=
  let permitted := connection.peer.any (isSameOrDescendant connection.parentPid · session.owner)
  match connection.sent with
  | .ok (some (.get identifier)) =>
    if !permitted then
      some (.error "this process was not started by the secret session's command")
    else
      match session.values[identifier]? with
      | some value => some (.value (String.ofList (base64Encode value)))
      | none => some (.error (identifier ++ " was not part of the approved request; " ++
          "list it in \x60with-secrets\x60 to ask for it"))
  | _ => none

end SecretSession

/-- What a round of `serve_until` finds. -/
inductive Poll
  | finished
  | idle
  | failed
  | accepted (connection : Connection)

def SecretSession.serveUntil (session : SecretSession) : List Poll → List (Connection × Option SessionResponse)
  | [] | .finished :: _ | .failed :: _ => []
  | .idle :: polls => session.serveUntil polls
  | .accepted connection :: polls => (connection, session.answer connection) :: session.serveUntil polls

def Requestable (identifiers : List String) : Prop :=
  identifiers ≠ [] ∧ identifiers.length ≤ maxRequestIdentifiers ∧ identifiers.Nodup ∧
    ∀ identifier ∈ identifiers, ∃ path, SecretPath.parse identifier = .ok path

/-- The operator returned one well-formed value for each identifier and no other. -/
structure Approves (answer : Except String SecretAnswer) (identifiers : List String)
    (values : List SecretValue) : Prop where
  approved : answer = .ok (.approved values)
  each : (values.map (·.identifier)).Perm identifiers
  formed : ∀ value ∈ values, ∃ bytes, base64Decode value.valueBase64.toList = some bytes

def SigningOnly (schema : Inventory.Schema) (identifier : String) : Prop :=
  ∃ path leafPath leaf, SecretPath.parse identifier = .ok path ∧
    schema.leaf path = .ok (.operator leafPath leaf) ∧ leaf.signingOnly = true

/-- Every way to a session: the operator approved it, or the values were decrypted here. -/
def Opened (schema : Inventory.Schema) (session : SecretSession) : Prop :=
  (∃ peer answer socket identifiers reason,
    request schema peer answer socket identifiers reason = .ok session) ∨
  ∃ pid get provider identifiers, decryptLocally schema pid get provider identifiers = .ok session

theorem checkIdentifiers_iff {seen identifiers : List String} :
    checkIdentifiers seen identifiers = .ok () ↔
      (∀ identifier ∈ identifiers, ∃ path, SecretPath.parse identifier = .ok path) ∧
        identifiers.Nodup ∧ ∀ identifier ∈ identifiers, identifier ∉ seen := by
  induction identifiers generalizing seen with
  | nil => simp [checkIdentifiers]
  | cons identifier identifiers ih =>
    rw [checkIdentifiers]
    constructor
    · intro h
      obtain ⟨path, hpath, h⟩ := Checked.bind_ok h
      obtain ⟨_, hnew, h⟩ := Checked.bind_ok h
      obtain ⟨hparse, hnodup, hseen⟩ := ih.mp h
      have hfresh : identifier ∉ identifiers := fun hmem => hseen identifier hmem List.mem_cons_self
      refine ⟨?_, List.nodup_cons.mpr ⟨hfresh, hnodup⟩, ?_⟩
      · exact List.forall_mem_cons.mpr ⟨⟨path, Checked.mapRefusal_ok hpath⟩, hparse⟩
      · intro other hother hmem
        rcases List.mem_cons.mp hother with hsame | hother
        · exact Checked.refuseIf_ok hnew (hsame ▸ hmem)
        · exact hseen other hother (List.mem_cons_of_mem identifier hmem)
    · intro ⟨hparse, hnodup, hseen⟩
      obtain ⟨path, hpath⟩ := hparse identifier List.mem_cons_self
      have hnew : identifier ∉ seen := hseen identifier List.mem_cons_self
      have hrest : checkIdentifiers (identifier :: seen) identifiers = .ok () := by
        apply ih.mpr
        refine ⟨fun other hother => hparse other (List.mem_cons_of_mem identifier hother),
          (List.nodup_cons.mp hnodup).2, fun other hother hmem => ?_⟩
        rcases List.mem_cons.mp hmem with hsame | hmem
        · exact (List.nodup_cons.mp hnodup).1 (hsame ▸ hother)
        · exact hseen other (List.mem_cons_of_mem identifier hother) hmem
      rw [hpath, Checked.refuseIf_of_not _ hnew]
      exact hrest

theorem takeValue_iff {seen : List String} {decoded result : Values} {value : SecretValue} :
    takeValue seen decoded value = .ok result ↔ value.identifier ∈ seen ∧ value.identifier ∉ decoded ∧
      ∃ bytes, base64Decode value.valueBase64.toList = some bytes ∧
        result = decoded.insert value.identifier bytes := by
  rw [takeValue]
  constructor
  · intro h
    obtain ⟨_, hasked, h⟩ := Checked.bind_ok h
    obtain ⟨bytes, hbytes, h⟩ := Checked.bind_ok h
    obtain ⟨_, hnew, h⟩ := Checked.bind_ok h
    cases h
    exact ⟨not_not.mp (Checked.refuseIf_ok hasked), Checked.refuseIf_ok hnew, bytes,
      Checked.orRefuse_ok hbytes, rfl⟩
  · intro ⟨hasked, hnew, bytes, hbytes, hresult⟩
    rw [Checked.refuseIf_of_not _ (not_not.mpr hasked), hbytes, Checked.refuseIf_of_not _ hnew, hresult]
    rfl

/-- Values that were taken in: distinct, asked for, decodable, and added to what was there. -/
structure Taken (seen : List String) (decoded : Values) (values : List SecretValue) (result : Values) :
    Prop where
  distinct : (values.map (·.identifier)).Nodup
  asked : ∀ value ∈ values, value.identifier ∈ seen
  fresh : ∀ value ∈ values, value.identifier ∉ decoded
  kept : ∀ value ∈ values, ∃ bytes, base64Decode value.valueBase64.toList = some bytes ∧
    result[value.identifier]? = some bytes
  others : ∀ identifier, identifier ∉ values.map (·.identifier) → result[identifier]? = decoded[identifier]?
  size : result.size = decoded.size + values.length

theorem takeValues_taken {seen : List String} {decoded result : Values} {values : List SecretValue}
    (h : Checked.carry (takeValue seen) decoded values = .ok result) : Taken seen decoded values result := by
  induction values generalizing decoded with
  | nil =>
    cases h
    exact ⟨List.nodup_nil, nofun, nofun, nofun, fun _ _ => rfl, rfl⟩
  | cons value values ih =>
    obtain ⟨next, hnext, h⟩ := Checked.bind_ok h
    obtain ⟨hasked, hnew, bytes, hbytes, rfl⟩ := takeValue_iff.mp hnext
    have hrest := ih h
    have hfresh : ∀ other ∈ values, other.identifier ≠ value.identifier ∧ other.identifier ∉ decoded := by
      intro other hother
      have hnot := hrest.fresh other hother
      rw [Std.ExtTreeMap.mem_insert, Std.LawfulEqCmp.compare_eq_iff_eq] at hnot
      exact ⟨fun hsame => hnot (.inl hsame.symm), fun hmem => hnot (.inr hmem)⟩
    have hapart : value.identifier ∉ values.map (·.identifier) := by
      intro hmem
      obtain ⟨other, hother, hsame⟩ := List.mem_map.mp hmem
      exact (hfresh other hother).1 hsame
    have hvalue : result[value.identifier]? = some bytes := by
      rw [hrest.others value.identifier hapart, Std.ExtTreeMap.getElem?_insert_self]
    refine ⟨List.nodup_cons.mpr ⟨hapart, hrest.distinct⟩, ?_, ?_, ?_, ?_, ?_⟩
    · exact List.forall_mem_cons.mpr ⟨hasked, hrest.asked⟩
    · exact List.forall_mem_cons.mpr ⟨hnew, fun other hother => (hfresh other hother).2⟩
    · exact List.forall_mem_cons.mpr ⟨⟨bytes, hbytes, hvalue⟩, hrest.kept⟩
    · intro identifier hother
      rw [List.map_cons, List.mem_cons, not_or] at hother
      rw [hrest.others identifier hother.2, Std.ExtTreeMap.getElem?_insert, if_neg]
      rw [Std.LawfulEqCmp.compare_eq_iff_eq]
      exact fun hsame => hother.1 hsame.symm
    · rw [hrest.size, Std.ExtTreeMap.size_insert, if_neg (by simpa using hnew), List.length_cons]
      omega

theorem takeValues_takes {seen : List String} {decoded : Values} {values : List SecretValue}
    (hdistinct : (values.map (·.identifier)).Nodup) (hasked : ∀ value ∈ values, value.identifier ∈ seen)
    (hfresh : ∀ value ∈ values, value.identifier ∉ decoded)
    (hformed : ∀ value ∈ values, ∃ bytes, base64Decode value.valueBase64.toList = some bytes) :
    ∃ result, Checked.carry (takeValue seen) decoded values = .ok result := by
  induction values generalizing decoded with
  | nil => exact ⟨decoded, rfl⟩
  | cons value values ih =>
    obtain ⟨bytes, hbytes⟩ := hformed value List.mem_cons_self
    have hnext : takeValue seen decoded value = .ok (decoded.insert value.identifier bytes) :=
      takeValue_iff.mpr ⟨hasked value List.mem_cons_self, hfresh value List.mem_cons_self, bytes, hbytes, rfl⟩
    obtain ⟨hapart, hdistinct⟩ := List.nodup_cons.mp hdistinct
    rw [Checked.carry, hnext, Checked.ok_bind]
    apply ih hdistinct (fun other hother => hasked other (List.mem_cons_of_mem value hother))
    · intro other hother hmem
      rw [Std.ExtTreeMap.mem_insert, Std.LawfulEqCmp.compare_eq_iff_eq] at hmem
      rcases hmem with hsame | hmem
      · exact hapart (List.mem_map.mpr ⟨other, hother, hsame.symm⟩)
      · exact hfresh other (List.mem_cons_of_mem value hother) hmem
    · exact fun other hother => hformed other (List.mem_cons_of_mem value hother)

theorem approvedValues_taken {answer : Except String SecretAnswer} {identifiers : List String}
    {reason : Option String} {values : Values} (h : approvedValues answer identifiers reason = .ok values) :
    ¬ reason.any (fun reason => maxRequestReasonBytes < reason.utf8ByteSize) ∧ Requestable identifiers ∧
      ∃ returned, answer = .ok (.approved returned) ∧ Taken identifiers ∅ returned values ∧
        values.size = identifiers.length := by
  rw [approvedValues] at h
  obtain ⟨_, hreason, h⟩ := Checked.bind_ok h
  obtain ⟨_, hcount, h⟩ := Checked.bind_ok h
  obtain ⟨_, hchecked, h⟩ := Checked.bind_ok h
  obtain ⟨answered, hanswered, h⟩ := Checked.bind_ok h
  obtain ⟨returned, hreturned, h⟩ := Checked.bind_ok h
  obtain ⟨decoded, hdecoded, h⟩ := Checked.bind_ok h
  obtain ⟨_, hsize, h⟩ := Checked.bind_ok h
  cases h
  have hcounted := not_or.mp (Checked.refuseIf_ok hcount)
  obtain ⟨hparse, hnodup, -⟩ := checkIdentifiers_iff.mp hchecked
  refine ⟨Checked.refuseIf_ok hreason, ⟨hcounted.1, not_lt.mp hcounted.2, hnodup, hparse⟩, returned, ?_,
    takeValues_taken hdecoded, not_not.mp (Checked.refuseIf_ok hsize)⟩
  cases answer with
  | error message => cases hanswered
  | ok answer =>
    cases hanswered
    cases answered with
    | approved values => cases hreturned; rfl
    | signed | loginGranted | artifactsSigned | closureSigned | confirmed | denied => cases hreturned

theorem Taken.perm {identifiers : List String} {returned : List SecretValue} {values : Values}
    (h : Taken identifiers ∅ returned values) (hsize : values.size = identifiers.length) :
    (returned.map (·.identifier)).Perm identifiers := by
  have hsubset : returned.map (·.identifier) ⊆ identifiers := by
    intro identifier hmem
    obtain ⟨value, hvalue, rfl⟩ := List.mem_map.mp hmem
    exact h.asked value hvalue
  have hlength : identifiers.length ≤ (returned.map (·.identifier)).length := by
    rw [List.length_map, ← hsize, h.size, Std.ExtTreeMap.size_empty]
    omega
  exact (List.subperm_of_subset h.distinct hsubset).perm_of_length_le hlength

theorem approvedValues_approves {answer : Except String SecretAnswer} {identifiers : List String}
    {reason : Option String} {values : Values} (h : approvedValues answer identifiers reason = .ok values) :
    ∃ returned, Approves answer identifiers returned := by
  obtain ⟨-, -, returned, hanswer, htaken, hsize⟩ := approvedValues_taken h
  refine ⟨returned, hanswer, htaken.perm hsize, fun value hvalue => ?_⟩
  obtain ⟨bytes, hbytes, -⟩ := htaken.kept value hvalue
  exact ⟨bytes, hbytes⟩

theorem approvedValues_of {answer : Except String SecretAnswer} {identifiers : List String}
    {reason : Option String} {returned : List SecretValue}
    (hreason : ¬ reason.any (fun reason => maxRequestReasonBytes < reason.utf8ByteSize))
    (hidentifiers : Requestable identifiers) (happroved : Approves answer identifiers returned) :
    ∃ values, approvedValues answer identifiers reason = .ok values := by
  obtain ⟨hsome, hcount, hnodup, hparse⟩ := hidentifiers
  have hcounted : ¬ (identifiers = [] ∨ maxRequestIdentifiers < identifiers.length) :=
    not_or.mpr ⟨hsome, not_lt.mpr hcount⟩
  have hchecked : checkIdentifiers [] identifiers = .ok () :=
    checkIdentifiers_iff.mpr ⟨hparse, hnodup, fun _ _ => List.not_mem_nil⟩
  have hasked : ∀ value ∈ returned, value.identifier ∈ identifiers := fun value hvalue =>
    happroved.each.mem_iff.mp (List.mem_map_of_mem hvalue)
  have hfresh : ∀ value ∈ returned, value.identifier ∉ (∅ : Values) := fun _ _ => Std.ExtTreeMap.not_mem_empty
  obtain ⟨values, hvalues⟩ :=
    takeValues_takes (happroved.each.nodup_iff.mpr hnodup) hasked hfresh happroved.formed
  have hsize : ¬ values.size ≠ identifiers.length := by
    rw [(takeValues_taken hvalues).size, Std.ExtTreeMap.size_empty, ← happroved.each.length_eq, List.length_map]
    omega
  refine ⟨values, ?_⟩
  rw [approvedValues, Checked.refuseIf_of_not _ hreason, Checked.refuseIf_of_not _ hcounted, hchecked,
    happroved.approved]
  show (Checked.carry (takeValue identifiers) ∅ returned >>= _) = _
  rw [hvalues, Checked.ok_bind, Checked.refuseIf_of_not _ hsize]
  rfl

/-- The map holds, for each identifier, what its value decodes to. -/
theorem Taken.lookup_iff {identifiers : List String} {returned : List SecretValue} {values : Values}
    (h : Taken identifiers ∅ returned values) (identifier : String) (bytes : List UInt8) :
    values[identifier]? = some bytes ↔ ∃ value ∈ returned, value.identifier = identifier ∧
      base64Decode value.valueBase64.toList = some bytes := by
  constructor
  · intro hbytes
    by_cases hmem : identifier ∈ returned.map (·.identifier)
    · obtain ⟨value, hvalue, rfl⟩ := List.mem_map.mp hmem
      obtain ⟨decoded, hdecoded, hkept⟩ := h.kept value hvalue
      rw [hkept] at hbytes
      exact ⟨value, hvalue, rfl, hbytes ▸ hdecoded⟩
    · rw [h.others identifier hmem, Std.ExtTreeMap.getElem?_empty] at hbytes
      cases hbytes
  · intro ⟨value, hvalue, hsame, hdecoded⟩
    obtain ⟨decoded, hdecoded', hkept⟩ := h.kept value hvalue
    rw [← hsame, hkept, ← hdecoded, hdecoded']

theorem refuseExport_signingOnly {schema : Inventory.Schema} {identifier : String}
    (h : refuseExport schema identifier = .ok ()) : ¬ SigningOnly schema identifier := by
  intro ⟨path, leafPath, leaf, hpath, hleaf, hsigning⟩
  have hexport : SecretPath.parse identifier >>= isSigningOnly schema = .ok true := by
    rw [hpath, Checked.ok_bind, isSigningOnly, hleaf, Checked.ok_bind]
    exact congrArg _ hsigning
  rw [refuseExport, hexport] at h
  cases h

theorem loadWithPolicy_signingOnly {schema : Inventory.Schema}
    {get : SecretPath → Except String (Option EncryptedSecret)} {identifier : String}
    {record : String × EncryptedSecret} (h : loadWithPolicy schema get false identifier = .ok record) :
    record.1 = identifier ∧ ¬ SigningOnly schema identifier := by
  rw [loadWithPolicy] at h
  obtain ⟨path, hpath, h⟩ := Checked.bind_ok h
  obtain ⟨leaf, hleaf, h⟩ := Checked.bind_ok h
  obtain ⟨_, hpolicy, h⟩ := Checked.bind_ok h
  obtain ⟨stored, _, h⟩ := Checked.bind_ok h
  obtain ⟨value, _, h⟩ := Checked.bind_ok h
  cases h
  refine ⟨rfl, fun hsigning => ?_⟩
  obtain ⟨path', leafPath, spec, hpath', hleaf', hsigning⟩ := hsigning
  rw [Checked.mapRefusal_ok hpath] at hpath'
  cases hpath'
  rw [Checked.mapRefusal_ok hleaf] at hleaf'
  cases hleaf'
  exact Checked.refuseIf_ok hpolicy ⟨hsigning, rfl⟩

theorem request_exports {schema : Inventory.Schema} {peer : Nat} {answer : Except String SecretAnswer}
    {socket : Except String Unit} {identifiers : List String} {reason : Option String} {session : SecretSession}
    (h : request schema peer answer socket identifiers reason = .ok session) :
    ∀ identifier ∈ session.values, ¬ SigningOnly schema identifier := by
  rw [request] at h
  obtain ⟨_, hexport, h⟩ := Checked.bind_ok h
  obtain ⟨values, hvalues, h⟩ := Checked.bind_ok h
  obtain ⟨_, _, h⟩ := Checked.bind_ok h
  cases h
  intro identifier hmem
  obtain ⟨-, -, returned, -, htaken, -⟩ := approvedValues_taken hvalues
  obtain ⟨value, hvalue, hsame, -⟩ :=
    (htaken.lookup_iff identifier _).mp (Std.ExtTreeMap.getElem?_eq_some_getElem hmem)
  exact refuseExport_signingOnly (Checked.each_ok hexport identifier (hsame ▸ htaken.asked value hvalue))

theorem decryptLocally_exports {schema : Inventory.Schema} {pid : Nat}
    {get : SecretPath → Except String (Option EncryptedSecret)}
    {provider : List (String × EncryptedSecret) → Except String (List (List UInt8))}
    {identifiers : List String} {session : SecretSession}
    (h : decryptLocally schema pid get provider identifiers = .ok session) :
    ∀ identifier ∈ session.values, ¬ SigningOnly schema identifier := by
  rw [decryptLocally] at h
  obtain ⟨records, hrecords, h⟩ := Checked.bind_ok h
  obtain ⟨plaintexts, _, h⟩ := Checked.bind_ok h
  cases h
  intro identifier hmem
  have hlisted : identifier ∈ records.map Prod.fst := by
    rw [Std.ExtTreeMap.mem_ofList, List.contains_iff_mem] at hmem
    obtain ⟨pair, hpair, rfl⟩ := List.mem_map.mp hmem
    exact (List.of_mem_zip hpair).1
  obtain ⟨record, hrecord, rfl⟩ := List.mem_map.mp hlisted
  obtain ⟨requested, -, hloaded⟩ := forall₂_mem_right (mapM_ok_iff.mp hrecords) record hrecord
  obtain ⟨hsame, hnot⟩ := loadWithPolicy_signingOnly hloaded
  exact hsame ▸ hnot

theorem answer_value {session : SecretSession} {connection : Connection} {text : String}
    (h : session.answer connection = some (.value text)) :
    ∃ identifier bytes pid, connection.sent = .ok (some (.get identifier)) ∧
      session.values[identifier]? = some bytes ∧ text = String.ofList (base64Encode bytes) ∧
        connection.peer = some pid ∧ Descends connection.parentPid pid session.owner := by
  unfold SecretSession.answer at h
  cases hsent : connection.sent with
  | error message => rw [hsent] at h; cases h
  | ok sent =>
    cases sent with
    | none => rw [hsent] at h; cases h
    | some asked =>
      cases asked with
      | get identifier =>
        simp only [hsent] at h
        split at h
        next => cases h
        next hpermitted =>
          split at h
          next bytes hbytes =>
            cases h
            rw [Bool.not_eq_true', Bool.not_eq_false, Option.any_eq_true] at hpermitted
            obtain ⟨pid, hpid, hclimb⟩ := hpermitted
            exact ⟨identifier, bytes, pid, rfl, hbytes, rfl, hpid, climb_descends hclimb⟩
          next => cases h

theorem serveUntil_answer {session : SecretSession} {polls : List Poll} {connection : Connection}
    {response : Option SessionResponse} (h : (connection, response) ∈ session.serveUntil polls) :
    response = session.answer connection := by
  induction polls with
  | nil => cases h
  | cons poll polls ih =>
    cases poll with
    | finished => cases h
    | failed => cases h
    | idle => exact ih h
    | accepted other =>
      rcases List.mem_cons.mp h with hsame | h
      · cases hsame
        rfl
      · exact ih h

/-- Only what the operator approved is exported, and only to the processes it was opened for. -/
theorem plaintext_export_exact (schema : Inventory.Schema) (identifiers : List String) (reason : Option String)
    (answer : Except String SecretAnswer) :
    ((∃ values, approvedValues answer identifiers reason = .ok values) ↔
      (∀ text, reason = some text → text.utf8ByteSize ≤ maxRequestReasonBytes) ∧ Requestable identifiers ∧
        ∃ returned, Approves answer identifiers returned) ∧
    (∀ values returned, approvedValues answer identifiers reason = .ok values →
      answer = .ok (.approved returned) → (∀ identifier, identifier ∈ values ↔ identifier ∈ identifiers) ∧
        ∀ value ∈ returned, values[value.identifier]? = base64Decode value.valueBase64.toList) ∧
    (∀ session, Opened schema session → ∀ identifier ∈ session.values, ¬ SigningOnly schema identifier) ∧
    ∀ (session : SecretSession) polls connection text,
      (connection, some (.value text)) ∈ session.serveUntil polls →
        ∃ identifier bytes pid, connection.sent = .ok (some (.get identifier)) ∧
          session.values[identifier]? = some bytes ∧ text = String.ofList (base64Encode bytes) ∧
            connection.peer = some pid ∧ Descends connection.parentPid pid session.owner := by
  have hreason : (¬ reason.any (fun reason => maxRequestReasonBytes < reason.utf8ByteSize)) ↔
      ∀ text, reason = some text → text.utf8ByteSize ≤ maxRequestReasonBytes := by
    cases reason with
    | none => simp
    | some text => simp
  refine ⟨⟨?_, ?_⟩, ?_, ?_, ?_⟩
  · intro ⟨values, h⟩
    obtain ⟨hshort, hidentifiers, -⟩ := approvedValues_taken h
    exact ⟨hreason.mp hshort, hidentifiers, approvedValues_approves h⟩
  · intro ⟨hshort, hidentifiers, returned, happroved⟩
    exact approvedValues_of (hreason.mpr hshort) hidentifiers happroved
  · intro values returned h hanswer
    obtain ⟨-, -, returned', hanswer', htaken, hsize⟩ := approvedValues_taken h
    rw [hanswer] at hanswer'
    cases hanswer'
    have hperm := htaken.perm hsize
    constructor
    · intro identifier
      rw [← hperm.mem_iff, Std.ExtTreeMap.mem_iff_isSome_getElem?, Option.isSome_iff_exists, List.mem_map]
      constructor
      · intro ⟨bytes, hbytes⟩
        obtain ⟨value, hvalue, hsame, -⟩ := (htaken.lookup_iff identifier bytes).mp hbytes
        exact ⟨value, hvalue, hsame⟩
      · intro ⟨value, hvalue, hsame⟩
        obtain ⟨bytes, -, hkept⟩ := htaken.kept value hvalue
        exact ⟨bytes, hsame ▸ hkept⟩
    · intro value hvalue
      obtain ⟨bytes, hbytes, hkept⟩ := htaken.kept value hvalue
      rw [hbytes, hkept]
  · intro session hopened
    rcases hopened with ⟨peer, answer, socket, identifiers, reason, h⟩ | ⟨pid, get, provider, identifiers, h⟩
    · exact request_exports h
    · exact decryptLocally_exports h
  · intro session polls connection text h
    exact answer_value (serveUntil_answer h).symm

def bootKey : SecretPath := ⟨["ns1", "services", "boot", "key"]⟩

/-- One byte more than a reason may have. -/
def longReason : String := String.ofList (List.replicate 4097 'a')

/-- A request that the operator approved in full is refused for its reason alone. -/
theorem long_reason_refused :
    ¬ ∀ (identifiers : List String) (reason : Option String) (answer : Except String SecretAnswer),
      (∃ values, approvedValues answer identifiers reason = .ok values) ↔
        Requestable identifiers ∧ ∃ returned, Approves answer identifiers returned := by
  intro h
  have hmade : SecretPath.new bootKey.parts = .ok bootKey := by decide
  have hrequestable : Requestable [bootKey.display] := by
    refine ⟨nofun, by decide, List.nodup_cons.mpr ⟨List.not_mem_nil, List.nodup_nil⟩, fun identifier hmem => ?_⟩
    cases List.mem_singleton.mp hmem
    exact ⟨bootKey, parse_display hmade⟩
  have happroves : Approves (.ok (.approved [⟨bootKey.display, ""⟩])) [bootKey.display]
      [⟨bootKey.display, ""⟩] := by
    refine ⟨rfl, List.Perm.refl _, fun value hmem => ?_⟩
    cases List.mem_singleton.mp hmem
    exact ⟨[], rfl⟩
  obtain ⟨values, hvalues⟩ := (h [bootKey.display] (some longReason) _).mpr ⟨hrequestable, _, happroves⟩
  obtain ⟨hshort, -, -⟩ := approvedValues_taken hvalues
  have hone : 'a'.utf8Size = 1 := by decide
  have hsize : longReason.utf8ByteSize = utf8Length (List.replicate 4097 'a') := utf8ByteSize_text _
  have hlength (n : Nat) : utf8Length (List.replicate n 'a') = n := by simp [utf8Length, hone]
  apply hshort
  rw [Option.any_some, hsize, hlength]
  decide

end NixSecrets.SecretExport
