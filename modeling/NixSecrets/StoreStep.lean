import NixSecrets.StoreRegistry

namespace NixSecrets.Inventory

/-- What a successful set leaves: a record that reads back as the envelope, and a registry
in which every older entry means what it meant. -/
structure Stores (path : SecretPath) (envelope : EncryptedSecret) (d d' : StoreDocument) : Prop where
  registry : Extends d.recipientRegistry d'.recipientRegistry
  stored : ∃ record, d'.secrets = d.secrets.insert path.display record ∧
    record.versionId = envelope.versionId ∧
    hydrateRecord d' record = .ok { envelope with recipientRefs := record.recipientRefs }
  rest : d' = { d with secrets := d'.secrets, recipientRegistry := d'.recipientRegistry }

/-- Everything an accepted operation can do to the document. -/
inductive StoreEffect (d d' : StoreDocument) : StoreOp → Prop
  | set {path envelope} (h : Stores path envelope d d') : StoreEffect d d' (.set path envelope)
  | setIfVersion {path envelope expected} (h : Stores path envelope d d')
      (hv : d.secrets[path.display]?.map (·.versionId) = expected) :
      StoreEffect d d' (.setIfVersion path envelope expected)
  | remove {path} (h : d' = { d with secrets := d.secrets.erase path.display }) :
      StoreEffect d d' (.remove path)
  | removeIfVersion {path expected} (h : d' = { d with secrets := d.secrets.erase path.display })
      (hv : d.secrets[path.display]?.map (·.versionId) = some expected) :
      StoreEffect d d' (.removeIfVersion path expected)
  | setGeneratedPublicKeyIfVersion {path value expected}
      (h : d' = { d with
        generatedPublicKeys := d.generatedPublicKeys.insert path.display value }) :
      StoreEffect d d' (.setGeneratedPublicKeyIfVersion path value expected)
  | setPublicKeyIfVersion {path key expected expectedKey record}
      (hr : d.secrets[path.display]? = some record)
      (h : d' = { d with
        secrets := d.secrets.insert path.display { record with publicKey := some key } }) :
      StoreEffect d d' (.setPublicKeyIfVersion path key expected expectedKey)
  | setPublicInfoIfVersion {path value expected} (id : String)
      (hv : d.publicInfo[id]?.map (·.versionId) = expected)
      (h : d' = { d with publicInfo := d.publicInfo.insert id value }) :
      StoreEffect d d' (.setPublicInfoIfVersion path value expected)
  | removePublicInfoIfVersion {path expected} (id : String)
      (hv : d.publicInfo[id]?.map (·.versionId) = some expected)
      (h : d' = { d with publicInfo := d.publicInfo.erase id }) :
      StoreEffect d d' (.removePublicInfoIfVersion path expected)
  | quarantine {value random} (id : String)
      (h : d' = { d with quarantine := d.quarantine.insert id value }) :
      StoreEffect d d' (.quarantine value random)
  | removeQuarantined {id} (h : d' = { d with quarantine := d.quarantine.erase id }) :
      StoreEffect d d' (.removeQuarantined id)

section

variable {libs : Libraries} {schema : Schema} {path : SecretPath} {d d' : StoreDocument}

theorem replying_act {α : Type} {reply : α → StoreReply} {prepared : Checked StoreError (Action α)}
    {r : StoreReply} (h : (replying reply prepared >>= fun action => action d) = .ok (r, d')) :
    ∃ action a, prepared = .ok action ∧ action d = .ok (a, d') := by
  obtain ⟨_, hr, h⟩ := Checked.bind_ok h
  obtain ⟨action, hp, hr⟩ := Checked.bind_ok hr
  cases hr
  obtain ⟨⟨a, document⟩, ha, h⟩ := Checked.bind_ok h
  cases h
  exact ⟨action, a, hp, ha⟩

theorem internAll_length (pairs : List (String × String)) (registry : BTreeMap String String) :
    (internAll pairs registry).1.length = pairs.length := by
  induction pairs generalizing registry with
  | nil => rfl
  | cons pair pairs ih =>
    obtain ⟨name, id⟩ := pair
    simp [internAll, ih]

theorem hydrateRecord_interned {names ids : List String} {envelope : EncryptedSecret}
    (hnames : names ≠ []) (hlength : names.length = envelope.recipientIds.length)
    (hids : ids = envelope.recipientIds)
    (hregistry : d'.recipientRegistry = (internAll (names.zip ids) d.recipientRegistry).2) :
    hydrateRecord d' { envelope with
      recipientRefs := (internAll (names.zip ids) d.recipientRegistry).1, recipientIds := [] } =
      .ok { envelope with recipientRefs := (internAll (names.zip ids) d.recipientRegistry).1 } := by
  have hrefs : (internAll (names.zip ids) d.recipientRegistry).1 ≠ [] := by
    intro h
    have hnil := congrArg List.length h
    rw [internAll_length, List.length_zip, hids, ← hlength, List.length_nil, Nat.min_self] at hnil
    exact hnames (List.length_eq_zero_iff.mp hnil)
  have hdenotes := internAll_denotes (names.zip ids) d.recipientRegistry
  have hzip : ids.length = names.length := by rw [hids, hlength]
  rw [List.map_snd_zip (Nat.le_of_eq hzip)] at hdenotes
  simp only [hydrateRecord, if_neg hrefs, hregistry, hdenotes, ne_eq, not_true_eq_false, if_false]
  rw [hids]
  rfl

theorem setChecked_act {envelope : EncryptedSecret} {expected : Option (Option (List UInt8))}
    {action : Action Unit} {a : Unit}
    (hp : SecretStore.setChecked libs schema path envelope expected = .ok action)
    (ha : action d = .ok (a, d')) : Stores path envelope d d' ∧
      ∀ version, expected = some version → d.secrets[path.display]?.map (·.versionId) = version := by
  obtain ⟨leaf, hleaf, hp⟩ := Checked.bind_ok hp
  obtain ⟨_, _, hp⟩ := Checked.bind_ok hp
  obtain ⟨_, _, hp⟩ := Checked.bind_ok hp
  obtain ⟨_, _, hp⟩ := Checked.bind_ok hp
  obtain ⟨_, _, hp⟩ := Checked.bind_ok hp
  obtain ⟨_, _, hp⟩ := Checked.bind_ok hp
  cases hp
  obtain ⟨_, hversion, ha⟩ := Checked.bind_ok ha
  have hexpected : ∀ version, expected = some version →
      d.secrets[path.display]?.map (·.versionId) = version := by
    intro version hv
    have hn := Checked.refuseIf_ok hversion
    simpa [hv] using hn
  refine ⟨?_, hexpected⟩
  split at ha
  next hnames =>
    obtain ⟨_, hlength, ha⟩ := Checked.bind_ok ha
    have hlength := Classical.not_not.mp (Checked.refuseIf_ok hlength)
    cases ha
    exact ⟨internAll_extends _ _, ⟨_, rfl, rfl, hydrateRecord_interned hnames hlength rfl rfl⟩, rfl⟩
  next =>
    cases ha
    exact ⟨Extends.rfl, ⟨_, rfl, rfl, by simp [hydrateRecord]⟩, rfl⟩

end

/-- The inversion of an accepted call. -/
theorem act_effect {libs : Libraries} {call : StoreCall} {d d' : StoreDocument} {reply : StoreReply}
    (h : call.act libs d = .ok (reply, d')) : StoreEffect d d' call.op := by
  obtain ⟨schema, op, faults⟩ := call
  unfold StoreCall.act at h
  cases op <;> simp only [StoreOp.prepare] at h
  case set path envelope =>
    obtain ⟨action, a, hp, ha⟩ := replying_act h
    exact .set (setChecked_act hp ha).1
  case setIfVersion path envelope expected =>
    obtain ⟨action, a, hp, ha⟩ := replying_act h
    obtain ⟨hs, hv⟩ := setChecked_act hp ha
    exact .setIfVersion hs (hv expected rfl)
  case remove path =>
    obtain ⟨action, a, hp, ha⟩ := replying_act h
    obtain ⟨_, _, hp⟩ := Checked.bind_ok hp
    obtain ⟨_, _, hp⟩ := Checked.bind_ok hp
    cases hp
    cases ha
    exact .remove rfl
  case removeIfVersion path expected =>
    obtain ⟨action, a, hp, ha⟩ := replying_act h
    obtain ⟨_, _, hp⟩ := Checked.bind_ok hp
    obtain ⟨_, _, hp⟩ := Checked.bind_ok hp
    cases hp
    obtain ⟨_, hv, ha⟩ := Checked.bind_ok ha
    cases ha
    exact .removeIfVersion rfl (Classical.not_not.mp (Checked.refuseIf_ok hv))
  case setGeneratedPublicKeyIfVersion path value expected =>
    obtain ⟨action, a, hp, ha⟩ := replying_act h
    obtain ⟨leaf, _, hp⟩ := Checked.bind_ok hp
    cases leaf with
    | generated _ spec =>
      obtain ⟨_, _, hp⟩ := Checked.bind_ok hp
      cases hp
      obtain ⟨_, _, ha⟩ := Checked.bind_ok ha
      obtain ⟨_, _, ha⟩ := Checked.bind_ok ha
      cases ha
      exact .setGeneratedPublicKeyIfVersion rfl
    | stored _ _ => cases hp
    | operator _ _ => cases hp
  case setPublicKeyIfVersion path key expected expectedKey =>
    obtain ⟨action, a, hp, ha⟩ := replying_act h
    obtain ⟨leaf, _, hp⟩ := Checked.bind_ok hp
    cases leaf with
    | generated _ spec =>
      obtain ⟨_, _, hp⟩ := Checked.bind_ok hp
      cases hp
      obtain ⟨record, hr, ha⟩ := Checked.bind_ok ha
      obtain ⟨_, _, ha⟩ := Checked.bind_ok ha
      obtain ⟨_, _, ha⟩ := Checked.bind_ok ha
      cases ha
      exact .setPublicKeyIfVersion (Checked.orRefuse_ok hr) rfl
    | stored _ _ => cases hp
    | operator _ _ => cases hp
  case setPublicInfoIfVersion path value expected =>
    obtain ⟨action, a, hp, ha⟩ := replying_act h
    obtain ⟨spec, _, hp⟩ := Checked.bind_ok hp
    split at hp
    next id _ port _ _ _ _ =>
      obtain ⟨_, _, hp⟩ := Checked.bind_ok hp
      obtain ⟨_, _, hp⟩ := Checked.bind_ok hp
      cases hp
      obtain ⟨_, hv, ha⟩ := Checked.bind_ok ha
      cases ha
      exact .setPublicInfoIfVersion id (Classical.not_not.mp (Checked.refuseIf_ok hv)) rfl
    next => cases hp
  case removePublicInfoIfVersion path expected =>
    obtain ⟨action, a, hp, ha⟩ := replying_act h
    obtain ⟨spec, _, hp⟩ := Checked.bind_ok hp
    split at hp
    next id _ _ =>
      cases hp
      obtain ⟨_, hv, ha⟩ := Checked.bind_ok ha
      cases ha
      exact .removePublicInfoIfVersion id (Classical.not_not.mp (Checked.refuseIf_ok hv)) rfl
    next => cases hp
  case quarantine value random =>
    obtain ⟨action, a, hp, ha⟩ := replying_act h
    obtain ⟨_, _, hp⟩ := Checked.bind_ok hp
    obtain ⟨id, _, hp⟩ := Checked.bind_ok hp
    cases hp
    obtain ⟨_, _, ha⟩ := Checked.bind_ok ha
    cases ha
    exact .quarantine _ rfl
  case removeQuarantined id =>
    obtain ⟨action, a, hp, ha⟩ := replying_act h
    cases hp
    cases ha
    exact .removeQuarantined rfl

end NixSecrets.Inventory
