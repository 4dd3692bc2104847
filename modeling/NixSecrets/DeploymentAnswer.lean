import Mathlib.Algebra.Group.Action.Defs
import Mathlib.Algebra.Order.BigOperators.Group.List
import Mathlib.Data.List.Perm.Subperm
import NixSecrets.GenerationConverges
import NixSecrets.ReceiverRun
import NixSecrets.ServerSafety
import NixSecrets.StoreListing

namespace NixSecrets.Transport

open Faulty Inventory

def GeneratedRecord.json (record : GeneratedRecord) : List Char := jsonObject [
  jsonMember "format_version" (jsonNumber record.formatVersion.toNat),
  jsonMember "version_id_base64" (jsonString record.versionIdBase64),
  jsonMember "recipient_ids" (jsonList record.recipientIds),
  jsonMember "age_ciphertext_base64" (jsonString record.ageCiphertextBase64),
  jsonMember "adopted" (if record.adopted then "true".toList else "false".toList)]

def mapJson {α : Type} (json : α → List Char) (map : BTreeMap String α) : List Char :=
  jsonObject (map.toList.map fun entry => jsonMember entry.1 (json entry.2))

/-- A map that is left out of the JSON object when it is empty. -/
def mapMember {α : Type} (name : String) (json : α → List Char) (map : BTreeMap String α) :
    List (List Char) :=
  if map.isEmpty then [] else [jsonMember name (mapJson json map)]

def DeploymentResult.json : DeploymentResult → List Char
  | .applied output => jsonObject ([jsonMember "status" (jsonString "applied"),
      jsonMember "versions" (mapJson jsonString output.versions),
      jsonMember "generated_public_keys" (mapJson jsonString output.generatedPublicKeys)] ++
    (mapMember "generated_records" GeneratedRecord.json output.generatedRecords ++
      mapMember "not_deployed" jsonString output.notDeployed))
  | .rejected message => jsonObject [jsonMember "status" (jsonString "rejected"),
      jsonMember "message" (jsonString message)]

/-- The result is written as it is, whatever is known of the other messages. -/
def WireFormat.answering (format : WireFormat) : WireFormat :=
  { format with result := fun result => .ok (utf8Bytes result.json) }

def GeneratedRecord.size (record : GeneratedRecord) : Nat :=
  93 + decimalSize record.formatVersion.toNat + jsonStringSize record.versionIdBase64 +
    jsonStringsSize record.recipientIds + jsonStringSize record.ageCiphertextBase64 +
    if record.adopted then 4 else 5

theorem GeneratedRecord.json_size (record : GeneratedRecord) :
    utf8Length (GeneratedRecord.json record) = GeneratedRecord.size record := by
  have hversion : jsonStringSize "format_version" = 16 := by decide
  have hid : jsonStringSize "version_id_base64" = 19 := by decide
  have hids : jsonStringSize "recipient_ids" = 15 := by decide
  have hage : jsonStringSize "age_ciphertext_base64" = 23 := by decide
  have hadopted : jsonStringSize "adopted" = 9 := by decide
  have hboth : utf8Length (if record.adopted then "true".toList else "false".toList) =
      if record.adopted then 4 else 5 := by
    cases record.adopted
    · decide
    · decide
  rw [GeneratedRecord.json, utf8Length_jsonObject_cons]
  simp only [List.map_cons, List.map_nil, List.sum_cons, List.sum_nil, utf8Length_jsonMember,
    utf8Length_jsonNumber, utf8Length_jsonString, jsonList, utf8Length_jsonStrings, hversion, hid, hids,
    hage, hadopted, hboth, GeneratedRecord.size]
  omega

/-- The values of a receiver come from a run of the value generation of its target. -/
def MakesValues {η : Type} (target : Generation.Target η) (r : Receiver) : Prop :=
  ∀ entries derive installed values, r.values entries derive installed = .ok values →
    ∃ s s', Generation.runValueGeneration target entries derive installed s = .ok (values, s')

/-- The output has the records of a run of the target's value generation for the batch; all else that is
reported is arbitrary. -/
def Returned {η : Type} (target : Generation.Target η) (batch : WireBatch) (output : AppliedOutput) : Prop :=
  ∃ installed s values s',
    Generation.runValueGeneration target batch.generate batch.derive installed s = .ok (values, s') ∧
      output.generatedRecords = values.records

section

variable {r : Receiver} {generated : GeneratedTasks} {records : BTreeMap String GeneratedRecord}
  {notDeployed : BTreeMap String String} {output : AppliedOutput} {faults rest : List Fault} {w w' : Roots}

theorem report_records (h : r.report generated records notDeployed faults w = (.done output, rest, w')) :
    output.generatedRecords = records := by
  rw [Receiver.report, bind_run] at h
  cases hversions : r.currentVersions faults w with
  | mk out found =>
    obtain ⟨after, w₁⟩ := found
    rw [hversions] at h
    cases out with
    | done versions =>
      cases h
      rfl
    | failed e => cases h
    | crashed => cases h

theorem answer_records {resolved : ResolvedBatch} {deployed : List String}
    {previous : BTreeMap String String}
    (h : r.answer resolved deployed previous generated records notDeployed faults w =
      (.done output, rest, w')) : output.generatedRecords = records := by
  have hfailed : (r.answer resolved deployed previous generated records notDeployed faults w).1.isFailed =
      false := by
    rw [h]
    rfl
  obtain ⟨hne, hcount, hrecorded, _⟩ := Receiver.answer_failed_iff.mp hfailed
  rw [Receiver.answer_recorded hne hcount hrecorded] at h
  exact report_records h

/-- The records that a receiver returns are those that its values came with. -/
theorem apply_records {current : BTreeMap String String} {id : String} {batch : WireBatch}
    (h : r.apply current id batch faults w = (.done output, rest, w')) :
    ∃ values, r.values batch.generate batch.derive current = .ok values ∧
      output.generatedRecords = values.records := by
  unfold Receiver.apply at h
  cases hleft : r.remaining current batch with
  | error e =>
    rw [hleft] at h
    cases h
  | ok left =>
    rw [hleft] at h
    have hvalues : r.values batch.generate batch.derive current = .ok left.values := by
      simp only [Receiver.remaining, except_bind_ok, except_mapError_ok] at hleft
      obtain ⟨generated, _, values, hvalues, hleft⟩ := hleft
      cases hleft
      simp only [Receiver.runValueGeneration, except_bind_ok] at hvalues
      obtain ⟨_, _, hvalues⟩ := hvalues
      exact hvalues
    refine ⟨left.values, hvalues, ?_⟩
    change (if left.batch.requestedIdentifiers = [] then _ else _ : Faulty Roots String AppliedOutput)
      faults w = _ at h
    by_cases hnone : left.batch.requestedIdentifiers = []
    · rw [if_pos hnone] at h
      exact report_records h
    · rw [if_neg hnone] at h
      cases hresolved : r.validateRemaining left.batch with
      | error e =>
        rw [hresolved] at h
        cases h
      | ok both =>
        rw [hresolved] at h
        change (r.publish both.1 id >>= _) faults w = _ at h
        rw [bind_run] at h
        cases hpublished : r.publish both.1 id faults w with
        | mk out found =>
          obtain ⟨after, w₁⟩ := found
          rw [hpublished] at h
          cases out with
          | done previous => exact answer_records h
          | failed e => cases h
          | crashed => cases h

end

section

variable {η : Type} {target : Generation.Target η}

theorem generateAll_records {schema : Inventory.Schema} {versions : BTreeMap String String}
    {derive : List String} {progress progress' : Generation.Progress} {entries : List GenerateEntry}
    {s s' : η}
    (h : Generation.generateAll target schema versions derive progress entries s = .ok (progress', s')) :
    (∀ k ∈ progress.records, k ∈ progress'.records) ∧
      ∀ entry ∈ entries, entry.identifier ∈ progress'.records := by
  induction entries generalizing progress s with
  | nil =>
    cases h
    exact ⟨fun _ hk => hk, fun _ hentry => (List.not_mem_nil hentry).elim⟩
  | cons entry rest ih =>
    simp only [Generation.generateAll, stateT_bind_ok] at h
    obtain ⟨made, s₁, _, h⟩ := h
    obtain ⟨hkept, hrest⟩ := ih h
    refine ⟨fun k hk => hkept k (Std.ExtTreeMap.mem_insert.mpr (Or.inr hk)), fun other hother => ?_⟩
    rcases List.mem_cons.mp hother with hsame | hother
    · rw [hsame]
      exact hkept _ Std.ExtTreeMap.mem_insert_self
    · exact hrest other hother

/-- There is a record for every item that a run is asked for. -/
theorem runValueGeneration_records {entries : List GenerateEntry} {derive : List String}
    {versions : BTreeMap String String} {values : GeneratedValues} {s s' : η}
    (h : Generation.runValueGeneration target entries derive versions s = .ok (values, s')) :
    ∀ entry ∈ entries, entry.identifier ∈ values.records := by
  simp only [Generation.runValueGeneration, stateT_bind_ok, Generation.check_ok] at h
  obtain ⟨schema, _, _, progress, s₁, hprogress, derived, _, _, h⟩ := h
  cases h
  exact (generateAll_records hprogress).2

/-- Whatever a receiver of the target applies, it returns such an output. -/
theorem apply_returned {r : Receiver} {current : BTreeMap String String} {id : String} {batch : WireBatch}
    {output : AppliedOutput} {faults rest : List Fault} {w w' : Roots} (hvalues : MakesValues target r)
    (h : r.apply current id batch faults w = (.done output, rest, w')) : Returned target batch output := by
  obtain ⟨values, hmade, hrecords⟩ := apply_records h
  obtain ⟨s, s', hrun⟩ := hvalues _ _ _ _ hmade
  exact ⟨current, s, values, s', hrun, hrecords⟩

/-- What is returned is never turned into a rejection. -/
theorem Returned.result {batch : WireBatch} {output : AppliedOutput} (h : Returned target batch output) :
    resultOf (batch.generate.map (·.identifier)) (.ok output) = .applied output := by
  obtain ⟨installed, s, values, s', hrun, hrecords⟩ := h
  have hall := runValueGeneration_records hrun
  have hnone : ¬ ∃ k ∈ batch.generate.map (·.identifier), k ∉ output.generatedRecords := by
    intro ⟨k, hk, hmissing⟩
    obtain ⟨entry, hentry, hsame⟩ := List.mem_map.mp hk
    rw [hrecords, ← hsame] at hmissing
    exact hmissing (hall entry hentry)
  rw [resultOf, if_neg hnone]

end

section

variable {ω η : Type} (libs : Libraries) (format : WireFormat) (write : ω → List UInt8 → Except String ω)
  (apply : WireBatch → Except String AppliedOutput)

end

end NixSecrets.Transport

namespace NixSecrets.Generation

open Inventory Crypto

end NixSecrets.Generation

namespace NixSecrets.Transport

open Inventory Generation

end NixSecrets.Transport
