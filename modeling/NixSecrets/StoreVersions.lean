import NixSecrets.StoreRecipients
import NixSecrets.History

namespace NixSecrets.Inventory

def recordVersion (document : StoreDocument) (identifier : String) : Option (List UInt8) :=
  document.secrets[identifier]?.map (·.versionId)

/-- The call stores an envelope under the path. -/
def StoreOp.puts (op : StoreOp) (path : SecretPath) (envelope : EncryptedSecret) : Prop :=
  op = .set path envelope ∨ ∃ expected, op = .setIfVersion path envelope expected

/-- The call replaces or removes the record if it still has this version. -/
def StoreOp.expects (op : StoreOp) (path : SecretPath) (version : List UInt8) : Prop :=
  (∃ envelope, op = .setIfVersion path envelope (some version)) ∨ op = .removeIfVersion path version

section

variable (libs : Libraries)

def Succeeds (disk : StoreDisk) (call : StoreCall) : Prop :=
  ∃ reply, (call.exec libs disk).1 = .done reply

/-- The call gives a record it stores a version the record never had, and sets no public
key in place. -/
structure Advances (earlier : List StoreCall) (call : StoreCall) : Prop where
  fresh : ∀ path envelope, call.op.puts path envelope → ∀ front, front <+: earlier →
    recordVersion (diskAfter libs {} front).document path.display ≠ some envelope.versionId
  keyKept : ∀ path key version expectedKey,
    call.op = .setPublicKeyIfVersion path key version expectedKey →
    ∀ reply document, call.act libs (diskAfter libs {} earlier).document ≠ .ok (reply, document)

/-- The call writes the record, or changes it without succeeding. -/
def Touches (identifier : String) (disk : StoreDisk) (call : StoreCall) : Prop :=
  (call.op.target.map SecretPath.display = some identifier ∧ Succeeds libs disk call) ∨
    (call.exec libs disk).2.document.secrets[identifier]? ≠ disk.document.secrets[identifier]?

end

section

variable {libs : Libraries} {d d' : StoreDocument} {op : StoreOp}

theorem effect_version (h : StoreEffect d d' op) {path : SecretPath} (hp : op.target = some path)
    (hpublic : ∀ key version expectedKey,
      op ≠ .setPublicKeyIfVersion path key version expectedKey) :
    recordVersion d' path.display = none ∨ ∃ envelope, op.puts path envelope ∧
      recordVersion d' path.display = some envelope.versionId := by
  unfold recordVersion
  cases h with
  | set h =>
    cases hp
    obtain ⟨record, hs, hv, _⟩ := h.stored
    refine Or.inr ⟨_, Or.inl rfl, ?_⟩
    rw [hs, Std.ExtTreeMap.getElem?_insert_self, Option.map_some, hv]
  | setIfVersion h =>
    cases hp
    obtain ⟨record, hs, hv, _⟩ := h.stored
    refine Or.inr ⟨_, Or.inr ⟨_, rfl⟩, ?_⟩
    rw [hs, Std.ExtTreeMap.getElem?_insert_self, Option.map_some, hv]
  | remove h | removeIfVersion h =>
    cases hp
    rw [h, Std.ExtTreeMap.getElem?_erase_self]
    exact Or.inl rfl
  | setPublicKeyIfVersion _ _ =>
    cases hp
    exact absurd rfl (hpublic _ _ _)
  | setGeneratedPublicKeyIfVersion _ | setPublicInfoIfVersion _ _ _
  | removePublicInfoIfVersion _ _ _ | quarantine _ _ | removeQuarantined _ => cases hp

theorem succeeds_act {disk : StoreDisk} {call : StoreCall} (h : Succeeds libs disk call) :
    ∃ reply, call.act libs disk.document = .ok (reply, (call.exec libs disk).2.document) := by
  obtain ⟨reply, hdone⟩ := h
  obtain ⟨document, ha, hf⟩ := exec_done hdone
  have hdocument : (call.exec libs disk).2.document = document := by
    rw [StoreDisk.document, hf]
    rfl
  exact ⟨reply, by rw [hdocument]; exact ha⟩

/-- One step: a call that advances the versions leaves a record alone, or leaves it
without the version somebody read before. -/
theorem advances_step {earlier : List StoreCall} {call : StoreCall} (h : Advances libs earlier call)
    {identifier : String} {v : List UInt8}
    (hread : ∃ front, front <+: earlier ∧
      recordVersion (diskAfter libs {} front).document identifier = some v) :
    ¬ Touches libs identifier (diskAfter libs {} earlier) call ∧
      recordVersion (call.exec libs (diskAfter libs {} earlier)).2.document identifier =
        recordVersion (diskAfter libs {} earlier).document identifier ∨
    recordVersion (call.exec libs (diskAfter libs {} earlier)).2.document identifier ≠ some v := by
  let disk := diskAfter libs {} earlier
  by_cases hact : ∃ reply, call.act libs disk.document = .ok (reply, (call.exec libs disk).2.document)
  · obtain ⟨reply, ha⟩ := hact
    have heffect := act_effect ha
    by_cases htarget : ∃ path, call.op.target = some path ∧ identifier = path.display
    · right
      obtain ⟨path, hp, rfl⟩ := htarget
      have hpublic : ∀ key version expectedKey,
          call.op ≠ .setPublicKeyIfVersion path key version expectedKey :=
        fun key version expectedKey hop => h.keyKept path key version expectedKey hop _ _ ha
      rcases effect_version heffect hp hpublic with hnone | ⟨envelope, hputs, hversion⟩
      · rw [hnone]
        nofun
      · obtain ⟨front, hfront, hv⟩ := hread
        rw [hversion, ← hv]
        exact (h.fresh path envelope hputs front hfront).symm
    · left
      have hsame := effect_secrets_other heffect fun path hp he => htarget ⟨path, hp, he⟩
      refine ⟨?_, by rw [recordVersion, hsame]; rfl⟩
      rintro (⟨hmap, _⟩ | hchanged)
      · obtain ⟨path, hp, hd⟩ := Option.map_eq_some_iff.mp hmap
        exact htarget ⟨path, hp, hd.symm⟩
      · exact hchanged hsame
  · left
    have hsame : (call.exec libs disk).2.document = disk.document :=
      (exec_document call disk).resolve_right hact
    refine ⟨?_, by rw [hsame]⟩
    rintro (⟨_, hsucceeds⟩ | hchanged)
    · exact hact (succeeds_act hsucceeds)
    · exact hchanged (by rw [hsame])

theorem diskAfter_append (disk : StoreDisk) (calls calls' : List StoreCall) :
    diskAfter libs disk (calls ++ calls') = diskAfter libs (diskAfter libs disk calls) calls' :=
  List.foldl_append

theorem diskAfter_extends (disk : StoreDisk) (calls : List StoreCall) :
    Extends disk.document.recipientRegistry (diskAfter libs disk calls).document.recipientRegistry := by
  induction calls generalizing disk with
  | nil => exact Extends.rfl
  | cons call calls ih =>
    refine Extends.trans ?_ (ih (call.exec libs disk).2)
    rcases @exec_document libs call disk with h | ⟨reply, ha⟩
    · rw [h]
      exact Extends.rfl
    · exact effect_registry (act_effect ha)

theorem expects_act {disk : StoreDisk} {call : StoreCall} {path : SecretPath} {v : List UInt8}
    (h : Succeeds libs disk call) (hop : call.op.expects path v) :
    recordVersion disk.document path.display = some v := by
  obtain ⟨reply, ha⟩ := succeeds_act h
  have heffect := act_effect ha
  rcases hop with ⟨envelope, hop⟩ | hop
  · rw [hop] at heffect
    cases heffect with
    | setIfVersion _ hv => exact hv
  · rw [hop] at heffect
    cases heffect with
    | removeIfVersion _ hv => exact hv

/-- A value that is public information is stored elsewhere, under its shared id. -/
theorem expects_leaf {call : StoreCall} {path : SecretPath} {v : List UInt8} {reply : StoreReply}
    (ha : call.act libs d = .ok (reply, d')) (hop : call.op.expects path v) :
    ∃ leaf, call.schema.leaf path = .ok leaf ∧ leaf.isPublicInfo = false := by
  unfold StoreCall.act at ha
  rcases hop with ⟨envelope, hop⟩ | hop <;> rw [hop] at ha <;> simp only [StoreOp.prepare] at ha
  · obtain ⟨action, _, hp, _⟩ := replying_act ha
    obtain ⟨leaf, hleaf, hp⟩ := Checked.bind_ok hp
    obtain ⟨_, hinfo, _⟩ := Checked.bind_ok hp
    exact ⟨leaf, Checked.mapRefusal_ok hleaf, by simpa using Checked.refuseIf_ok hinfo⟩
  · obtain ⟨action, _, hp, _⟩ := replying_act ha
    obtain ⟨leaf, hleaf, hp⟩ := Checked.bind_ok hp
    obtain ⟨_, hinfo, _⟩ := Checked.bind_ok hp
    exact ⟨leaf, Checked.mapRefusal_ok hleaf, by simpa using Checked.refuseIf_ok hinfo⟩

theorem get_hydrated {path : SecretPath} {envelope : EncryptedSecret} :
    SecretStore.get path d = .ok (some envelope, d) ↔
      hydrated d path.display = some (.ok envelope) := by
  unfold SecretStore.get hydrated
  cases hr : d.secrets[path.display]? with
  | none => simp [pure, Except.pure]
  | some record =>
    cases hh : hydrateRecord d record with
    | error e => simp [Checked.ofExcept, Checked.refuse, bind, Except.bind, hh]
    | ok hydrated => simp [Checked.ofExcept, bind, Except.bind, pure, Except.pure, hh]

theorem hydrated_version {identifier : String} {envelope : EncryptedSecret}
    (h : hydrated d identifier = some (.ok envelope)) :
    recordVersion d identifier = some envelope.versionId := by
  unfold hydrated at h
  obtain ⟨record, hr, hh⟩ := Option.map_eq_some_iff.mp h
  have hsame : envelope.versionId = record.versionId := by
    unfold hydrateRecord at hh
    split at hh
    next => cases hh; rfl
    next =>
      split at hh
      next => cases hh
      next =>
        cases hl : lookUp d.recipientRegistry record.recipientRefs with
        | error e => rw [hl] at hh; cases hh
        | ok ids => rw [hl] at hh; cases hh; rfl
  rw [recordVersion, hr, hsame]
  rfl

end

/-- In a run whose calls all advance the versions, an update that expects the version
somebody read finds the record as it was read, and nothing wrote it in between. -/
theorem store_loses_no_update (libs : Libraries) (calls : List StoreCall)
    (hadvances : ∀ earlier call later, calls = earlier ++ call :: later →
      Advances libs earlier call) :
    ∀ earlier between call later path envelope, calls = earlier ++ between ++ call :: later →
    let seen := (diskAfter libs {} earlier).document
    let found := (diskAfter libs {} (earlier ++ between)).document
    SecretStore.get path seen = .ok (some envelope, seen) →
    call.op.expects path envelope.versionId →
    Succeeds libs (diskAfter libs {} (earlier ++ between)) call →
    SecretStore.get path found = .ok (some envelope, found) ∧
    (∃ leaf, call.schema.leaf path = .ok leaf ∧ leaf.isPublicInfo = false) ∧
    ∀ front step rest, between = front ++ step :: rest →
      step.op.target.map SecretPath.display = some path.display →
      ¬ Succeeds libs (diskAfter libs {} (earlier ++ front)) step := by
  intro earlier between call later path envelope hcalls seen found hget hexpects hsucceeds
  have hread := get_hydrated.mp hget
  have hversion := hydrated_version hread
  let next := fun (disk : StoreDisk) (call : StoreCall) => (call.exec libs disk).2
  have hleaves : LeavesOrReplaces next (fun disk => recordVersion disk.document path.display)
      (Touches libs path.display) envelope.versionId (diskAfter libs {} earlier) between := by
    intro front step rest hb
    have hsplit : calls = (earlier ++ front) ++ step :: (rest ++ call :: later) := by
      simp [hcalls, hb]
    have hstep := advances_step (hadvances _ _ _ hsplit)
      ⟨earlier, List.prefix_append earlier front, hversion⟩
    rw [diskAfter_append] at hstep
    rw [stateAfter_append]
    exact hstep
  have hfinal : recordVersion (stateAfter next (diskAfter libs {} earlier) between).document
      path.display = some envelope.versionId := by
    have h := expects_act hsucceeds hexpects
    rw [diskAfter_append] at h
    exact h
  have huntouched := untouched_of_version hleaves hfinal
  have hsecrets : found.secrets[path.display]? = seen.secrets[path.display]? := by
    have hsame : ∀ front step rest, between = front ++ step :: rest →
        (stateAfter next (diskAfter libs {} earlier) (front ++ [step])).document.secrets[path.display]? =
          (stateAfter next (diskAfter libs {} earlier) front).document.secrets[path.display]? := by
      intro front step rest hb
      have h := huntouched front step rest hb
      rw [stateAfter_append]
      exact Classical.not_not.mp fun hchanged => h (Or.inr hchanged)
    have hkept := @kept_by_steps _ _ next _ (fun disk : StoreDisk => disk.document.secrets[path.display]?)
      _ _ hsame
    show (diskAfter libs {} (earlier ++ between)).document.secrets[path.display]? = _
    rw [diskAfter_append]
    exact hkept
  obtain ⟨reply, hact⟩ := succeeds_act hsucceeds
  refine ⟨get_hydrated.mpr ?_, expects_leaf hact hexpects, fun front step rest hb htarget hs => ?_⟩
  · have hextends : Extends seen.recipientRegistry found.recipientRegistry := by
      show Extends _ (diskAfter libs {} (earlier ++ between)).document.recipientRegistry
      rw [diskAfter_append]
      exact diskAfter_extends _ between
    rw [hydrated_extends hextends hsecrets (diskAfter_hydrates libs earlier)]
    exact hread
  · rw [diskAfter_append] at hs
    exact huntouched front step rest hb (Or.inl ⟨htarget, hs⟩)

def tokenReplace : StoreCall where
  schema := webSchema
  op := .setIfVersion tokenPath (tokenEnvelope 2) (some (tokenEnvelope 1).versionId)

theorem tokenSet_advances : Advances noLibraries [] (tokenSet 1) := by
  refine ⟨fun path envelope hputs front hfront => ?_, fun _ _ _ _ hop => nomatch hop⟩
  rw [List.prefix_nil.mp hfront]
  nofun

theorem tokenReplace_advances : Advances noLibraries [tokenSet 1] tokenReplace := by
  refine ⟨fun path envelope hputs front hfront => ?_, fun _ _ _ _ hop => nomatch hop⟩
  rcases hputs with hop | ⟨expected, hop⟩
  · cases hop
  · cases hop
    rcases List.prefix_cons_iff.mp hfront with rfl | ⟨rest, rfl, hrest⟩
    · decide
    · rw [List.prefix_nil.mp hrest]
      decide

/-- The second writer read the first one's record and replaces it. -/
theorem tokenReplace_loses_nothing :
    SecretStore.get tokenPath (diskAfter noLibraries {} [tokenSet 1]).document =
      .ok (some { tokenEnvelope 1 with recipientRefs := ["alice#0"] },
        (diskAfter noLibraries {} [tokenSet 1]).document) := by
  have hrun := store_loses_no_update noLibraries [tokenSet 1, tokenReplace]
    (fun earlier call later hcalls => by
      cases earlier with
      | nil =>
        cases hcalls
        exact tokenSet_advances
      | cons first earlier =>
        obtain ⟨rfl, hrest⟩ := List.cons.inj hcalls
        cases earlier with
        | nil =>
          cases hrest
          exact tokenReplace_advances
        | cons second earlier =>
          have hlength := congrArg List.length hrest
          simp at hlength)
    [tokenSet 1] [] tokenReplace [] tokenPath { tokenEnvelope 1 with recipientRefs := ["alice#0"] }
    rfl (by decide) (Or.inl ⟨tokenEnvelope 2, rfl⟩) ⟨.updated, by decide⟩
  exact hrun.1

def boxKeyText : String := "AAAAC3NzaC1lZDI1NTE5AAAAIAAAAAAAAAAAAAAAAAAAAAAAAAAAAAAAAAAAAAAAAAAA"

def boxKey : String := "ssh-ed25519 " ++ boxKeyText

def boxLeaf : GeneratedSecretLeaf where
  recipientPublicKeys := [boxKey]
  recipientIds := ["age1alice"]
  generatedSecret := {
    secretType := .storageBoxSshKey
    output := {
      path := "/persistent/secrets/backup/backup/key", category := "backup", owner := "root",
      group := "root", mode := "0400", contentType := some "openssh-private-key" }
    bootstrap := some { host := "box", port := 23, user := "u1", hostPublicKeys := [boxKey] } }

def boxSchema : Schema :=
  [("ns1", { webHost with serviceGroups := [("services", [("backup", .branch [("key", .generated boxLeaf)])])] })]

def boxPath : SecretPath := ⟨["ns1", "services", "backup", "key"]⟩

/-- Base64 as far as the example's one key goes. -/
def boxLibraries : Libraries where
  parseIp _ := none
  decodeBase64 text := if text = boxKeyText.toList then
      some ([0, 0, 0, 11] ++ utf8Bytes "ssh-ed25519".toList ++ [0, 0, 0, 32] ++ List.replicate 32 0)
    else none
  opensshKey _ := none
  regexError _ := none

def boxSet : StoreCall := ⟨boxSchema, .set boxPath (tokenEnvelope 1), []⟩

def boxPublish : StoreCall :=
  ⟨boxSchema, .setPublicKeyIfVersion boxPath boxKey (tokenEnvelope 1).versionId none, []⟩

def boxReplace : StoreCall :=
  ⟨boxSchema, .setIfVersion boxPath (tokenEnvelope 2) (some (tokenEnvelope 1).versionId), []⟩

/-- Between the read of the record and the update that expects its version, somebody else
set its public key, which the update then discards. -/
theorem public_key_update_lost :
    let seen := (diskAfter boxLibraries {} [boxSet]).document
    let found := (diskAfter boxLibraries {} [boxSet, boxPublish]).document
    SecretStore.get boxPath seen = .ok (some (tokenEnvelope 1), seen) ∧
    (boxPublish.exec boxLibraries (diskAfter boxLibraries {} [boxSet])).1 = .done .updated ∧
    (boxReplace.exec boxLibraries (diskAfter boxLibraries {} [boxSet, boxPublish])).1 =
      .done .updated ∧
    SecretStore.get boxPath found =
      .ok (some { tokenEnvelope 1 with publicKey := some boxKey }, found) := by
  decide

end NixSecrets.Inventory
