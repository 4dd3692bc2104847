import NixSecrets.ControllerSteps
import NixSecrets.StoreStep

namespace NixSecrets.Manager

open Inventory Program

/-- Every stored value stays as it is; what was unset may be set. -/
structure Keeps (before after : StoreDocument) : Prop where
  secrets : ∀ (identifier : String) (record : EncryptedSecret), before.secrets[identifier]? = some record →
    ∃ record' : EncryptedSecret, after.secrets[identifier]? = some record' ∧ record'.versionId = record.versionId ∧
      record'.ageCiphertext = record.ageCiphertext ∧
      (record.publicKey.isSome → record'.publicKey = record.publicKey)
  generatedPublicKeys : ∀ (identifier : String) (key : GeneratedPublicKey),
    before.generatedPublicKeys[identifier]? = some key → after.generatedPublicKeys[identifier]? = some key
  publicInfo : ∀ (id : String) (record : PublicInfoRecord), before.publicInfo[id]? = some record → after.publicInfo[id]? = some record

/-- The writes that expect their place to be unset, and the quarantine. -/
inductive Additive : StoreOp → Prop
  | envelope (path : SecretPath) (envelope : EncryptedSecret) : Additive (.setIfVersion path envelope none)
  | publicInfo (path : SecretPath) (record : PublicInfoRecord) :
    Additive (.setPublicInfoIfVersion path record none)
  | generated (path : SecretPath) (key : GeneratedPublicKey) :
    Additive (.setGeneratedPublicKeyIfVersion path key none)
  | attached (path : SecretPath) (key : String) (version : List UInt8) :
    Additive (.setPublicKeyIfVersion path key version none)
  | quarantine (value : QuarantinedValue) (random : Except String String) : Additive (.quarantine value random)

/-- What the write of a mutation does: the store still holds what the mutation was staged over, and
then has the proposed value there, and otherwise what it had. -/
inductive Performed (before after : StoreDocument) : HostMutation → Prop
  | generated {path : SecretPath} {previous : Option GeneratedPublicKey} {proposed : GeneratedPublicKey}
      (held : before.generatedPublicKeys[path.display]?.map (·.versionId) = previous.map (·.versionId))
      (done : after = { before with
        generatedPublicKeys := before.generatedPublicKeys.insert path.display proposed }) :
      Performed before after (.generated path previous proposed)
  | attached {path : SecretPath} {previous : Option String} {proposed : String} {record : EncryptedSecret}
      (held : before.secrets[path.display]? = some record) (same : record.publicKey = previous)
      (done : after = { before with
        secrets := before.secrets.insert path.display { record with publicKey := some proposed } }) :
      Performed before after (.attached path record.versionId previous proposed)
  | inventory {path : SecretPath} {previousVersion : Option (List UInt8)} {previousKeys : List String}
      {proposed : EncryptedSecret} {proposedKeys : List String}
      (held : before.secrets[path.display]?.map (·.versionId) = previousVersion)
      (done : Stores path proposed before after) :
      Performed before after (.inventory path previousVersion previousKeys proposed proposedKeys)
  | identity {path : SecretPath} {sharedId : String} {previous : Option PublicInfoRecord}
      {previousProblem : Option String} {proposed : PublicInfoRecord} {consumers : BTreeSet String} (id : String)
      (held : before.publicInfo[id]?.map (·.versionId) = previous.map (·.versionId))
      (done : after = { before with publicInfo := before.publicInfo.insert id proposed }) :
      Performed before after (.identity path sharedId previous previousProblem proposed consumers)

variable {libs : Inventory.Libraries} {before after : StoreDocument} {call : StoreCall} {reply : StoreReply}

theorem generated_act {path : SecretPath} {key : GeneratedPublicKey} {expected : Option String}
    (h : call.act libs before = .ok (reply, after))
    (hop : call.op = .setGeneratedPublicKeyIfVersion path key expected) :
    before.generatedPublicKeys[path.display]?.map (·.versionId) = expected ∧
      after = { before with generatedPublicKeys := before.generatedPublicKeys.insert path.display key } := by
  obtain ⟨schema, op, faults⟩ := call
  cases hop
  simp only [StoreCall.act, StoreOp.prepare] at h
  obtain ⟨action, a, hp, ha⟩ := replying_act h
  obtain ⟨leaf, _, hp⟩ := Checked.bind_ok hp
  cases leaf with
  | generated _ spec =>
    obtain ⟨_, _, hp⟩ := Checked.bind_ok hp
    cases hp
    obtain ⟨_, hversion, ha⟩ := Checked.bind_ok ha
    obtain ⟨_, _, ha⟩ := Checked.bind_ok ha
    cases ha
    exact ⟨Classical.not_not.mp (Checked.refuseIf_ok hversion), rfl⟩
  | stored _ _ => cases hp
  | operator _ _ => cases hp

theorem attached_act {path : SecretPath} {key : String} {version : List UInt8} {expected : Option String}
    (h : call.act libs before = .ok (reply, after))
    (hop : call.op = .setPublicKeyIfVersion path key version expected) :
    ∃ record, before.secrets[path.display]? = some record ∧ record.versionId = version ∧
      record.publicKey = expected ∧
      after = { before with
        secrets := before.secrets.insert path.display { record with publicKey := some key } } := by
  obtain ⟨schema, op, faults⟩ := call
  cases hop
  simp only [StoreCall.act, StoreOp.prepare] at h
  obtain ⟨action, a, hp, ha⟩ := replying_act h
  obtain ⟨leaf, _, hp⟩ := Checked.bind_ok hp
  cases leaf with
  | generated _ spec =>
    obtain ⟨_, _, hp⟩ := Checked.bind_ok hp
    cases hp
    obtain ⟨record, hrecord, ha⟩ := Checked.bind_ok ha
    obtain ⟨_, hversion, ha⟩ := Checked.bind_ok ha
    obtain ⟨_, hkey, ha⟩ := Checked.bind_ok ha
    cases ha
    exact ⟨record, Checked.orRefuse_ok hrecord, Classical.not_not.mp (Checked.refuseIf_ok hversion),
      Classical.not_not.mp (Checked.refuseIf_ok hkey), rfl⟩
  | stored _ _ => cases hp
  | operator _ _ => cases hp

theorem envelope_act {path : SecretPath} {envelope : EncryptedSecret} {expected : Option (List UInt8)}
    (h : call.act libs before = .ok (reply, after)) (hop : call.op = .setIfVersion path envelope expected) :
    before.secrets[path.display]?.map (·.versionId) = expected ∧ Stores path envelope before after := by
  have heffect := act_effect h
  rw [hop] at heffect
  cases heffect with
  | setIfVersion hs hv => exact ⟨hv, hs⟩

theorem publicInfo_act {path : SecretPath} {record : PublicInfoRecord} {expected : Option String}
    (h : call.act libs before = .ok (reply, after))
    (hop : call.op = .setPublicInfoIfVersion path record expected) :
    ∃ id, before.publicInfo[id]?.map (·.versionId) = expected ∧
      after = { before with publicInfo := before.publicInfo.insert id record } := by
  have heffect := act_effect h
  rw [hop] at heffect
  cases heffect with
  | setPublicInfoIfVersion id hv hd => exact ⟨id, hv, hd⟩

/-- What is there stays when a value is put where nothing is. -/
theorem getElem?_insert_unset {α : Type} {m : BTreeMap String α} {key : String} (value : α)
    (h : m[key]? = none) {other : String} {found : α} (hfound : m[other]? = some found) :
    (m.insert key value)[other]? = some found := by
  have hne : key ≠ other := by
    intro heq
    rw [← heq, h] at hfound
    cases hfound
  rw [Std.ExtTreeMap.getElem?_insert, if_neg, hfound]
  intro heq
  exact hne (Std.LawfulEqOrd.eq_of_compare heq)

theorem Keeps.of_same (hsecrets : after.secrets = before.secrets)
    (hkeys : after.generatedPublicKeys = before.generatedPublicKeys)
    (hinfo : after.publicInfo = before.publicInfo) : Keeps before after := by
  refine ⟨fun identifier record h => ⟨record, ?_, rfl, rfl, fun _ => rfl⟩, ?_, ?_⟩
  · rw [hsecrets, h]
  · intro identifier key h
    rw [hkeys, h]
  · intro id record h
    rw [hinfo, h]

/-- A write that expects its place to be unset replaces nothing. -/
theorem additive_keeps (h : call.act libs before = .ok (reply, after)) (hop : Additive call.op) :
    Keeps before after := by
  obtain ⟨op, heq⟩ : ∃ op, call.op = op := ⟨_, rfl⟩
  rw [heq] at hop
  cases hop with
  | envelope path envelope =>
    obtain ⟨hunset, hstores⟩ := envelope_act h heq
    obtain ⟨record, hsecrets, _, _⟩ := hstores.stored
    have hunset := Option.map_eq_none_iff.mp hunset
    rw [hstores.rest]
    refine ⟨fun identifier old hold => ⟨old, ?_, rfl, rfl, fun _ => rfl⟩, fun _ _ hold => hold, fun _ _ hold => hold⟩
    show after.secrets[identifier]? = some old
    rw [hsecrets]
    exact getElem?_insert_unset record hunset hold
  | publicInfo path record =>
    obtain ⟨id, hunset, hafter⟩ := publicInfo_act h heq
    have hunset := Option.map_eq_none_iff.mp hunset
    rw [hafter]
    exact ⟨fun _ old hold => ⟨old, hold, rfl, rfl, fun _ => rfl⟩, fun _ _ hold => hold,
      fun _ _ hold => getElem?_insert_unset record hunset hold⟩
  | generated path key =>
    obtain ⟨hunset, hafter⟩ := generated_act h heq
    have hunset := Option.map_eq_none_iff.mp hunset
    rw [hafter]
    exact ⟨fun _ old hold => ⟨old, hold, rfl, rfl, fun _ => rfl⟩,
      fun _ _ hold => getElem?_insert_unset key hunset hold, fun _ _ hold => hold⟩
  | attached path key version =>
    obtain ⟨record, hrecord, _, hkey, hafter⟩ := attached_act h heq
    rw [hafter]
    refine ⟨fun identifier old hold => ?_, fun _ _ hold => hold, fun _ _ hold => hold⟩
    by_cases hid : path.display = identifier
    · rw [← hid, hrecord] at hold
      cases hold
      refine ⟨{ record with publicKey := some key }, ?_, rfl, rfl, ?_⟩
      · rw [← hid]
        exact Std.ExtTreeMap.getElem?_insert_self
      · intro hset
        rw [hkey] at hset
        cases hset
    · refine ⟨old, ?_, rfl, rfl, fun _ => rfl⟩
      show (before.secrets.insert path.display _)[identifier]? = some old
      rw [Std.ExtTreeMap.getElem?_insert, if_neg, hold]
      intro heq
      exact hid (Std.LawfulEqOrd.eq_of_compare heq)
  | quarantine value random =>
    have heffect := act_effect h
    rw [heq] at heffect
    cases heffect with
    | quarantine id hafter =>
      rw [hafter]
      exact .of_same rfl rfl rfl

/-- The write of a mutation is done only over what it was staged over. -/
theorem mutation_performed {mutation : HostMutation} (h : call.act libs before = .ok (reply, after))
    (hop : call.op = mutation.op) : Performed before after mutation := by
  cases mutation with
  | generated path previous proposed =>
    obtain ⟨held, done⟩ := generated_act h hop
    exact .generated held done
  | attached path version previous proposed =>
    obtain ⟨record, held, rfl, same, done⟩ := attached_act h hop
    exact .attached held same done
  | inventory path previousVersion previousKeys proposed proposedKeys =>
    obtain ⟨held, done⟩ := envelope_act h hop
    exact .inventory held done
  | identity path sharedId previous previousProblem proposed consumers =>
    obtain ⟨id, held, done⟩ := publicInfo_act h hop
    exact .identity id held done

/-- A mutation that the operator is not shown was staged where nothing was. -/
theorem additive_of_unshown {libs : Libraries} {mutation : HostMutation} (h : mutation.review libs = none) :
    Additive mutation.op := by
  cases mutation with
  | generated path previous proposed =>
    cases previous with
    | none => exact .generated path proposed
    | some previous => cases h
  | attached path version previous proposed =>
    cases previous with
    | none => exact .attached path proposed version
    | some previous => cases h
  | inventory path previousVersion previousKeys proposed proposedKeys =>
    cases previousVersion with
    | none => exact .envelope path proposed
    | some version => cases h
  | identity path sharedId previous previousProblem proposed consumers =>
    cases previous with
    | none => exact .publicInfo path proposed
    | some previous => cases previousProblem <;> cases h

/-- A batch without a line to show was staged where nothing was. -/
theorem additive_of_no_reviews {libs : Libraries} {batch : HostMutationBatch} (h : batch.reviews libs = [])
    {mutation : HostMutation} (hmem : mutation ∈ batch.mutations) : Additive mutation.op :=
  additive_of_unshown (List.filterMap_eq_nil_iff.mp h mutation hmem)

end NixSecrets.Manager
