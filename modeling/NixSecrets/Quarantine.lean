import NixSecrets.ControllerStaging
import NixSecrets.StoreVersions
import Mathlib.Logic.Relation

namespace NixSecrets.Quarantine

open Inventory Manager Relation

section

variable (libs : Manager.Libraries) (schema : Inventory.Schema) (id : String)

def cannotAdopt (value : QuarantinedValue) (why : String) : String :=
  "cannot adopt " ++ id ++ " (" ++ value.identifier ++ "): " ++ why

/-- The key of a dated line `STAMP algorithm key`, or the text itself. -/
def undated (text : String) : String :=
  match fields text.toList with
  | [_, algorithm, material] => String.ofList algorithm ++ " " ++ String.ofList material
  | _ => text

/-- What `adopt` asks the store for, once it has looked at what is there: the
record and the generated public key of the path. -/
def adoptOp (value : QuarantinedValue) (stored : Option EncryptedSecret) (generated : Option GeneratedPublicKey) :
    Checked String StoreOp := do
  let path ← parsePath libs value.identifier
  match value.content with
  | .generatedRecord formatVersion versionId recipientIds ageCiphertext adopted =>
    let envelope ← (recordEnvelope libs schema value.identifier
      ⟨formatVersion, versionId, recipientIds, ageCiphertext, adopted⟩).mapRefusal (cannotAdopt id value)
    Checked.refuseIf (stored.isSome = true)
      (cannotAdopt id value "a value is stored there; remove it first if this one should replace it")
    return .setIfVersion path envelope none
  | .publicKey publicKey =>
    match schema.leaf path with
    | .ok (.generated _ spec) =>
      match spec.generatedSecret.secretType with
      | .localSshKey =>
        Checked.refuseIf (generated.isSome = true)
          (cannotAdopt id value "a public key is stored there; discard this one or remove that first")
        return .setGeneratedPublicKeyIfVersion path ⟨"quarantine-" ++ id, undated publicKey⟩ none
      | .storageBoxSshKey =>
        let stored ← Checked.orRefuse (cannotAdopt id value "its Storage Box input is not stored") stored
        Checked.refuseIf (stored.publicKey.isSome = true)
          (cannotAdopt id value "a public key is attached there already")
        return .setPublicKeyIfVersion path (undated publicKey) stored.versionId none
    | _ => Checked.refuse (cannotAdopt id value "it is not a generated key of the current schema")

end

/-- The document gains a value where it held none, and keeps everything else. -/
inductive Adds (d d' : StoreDocument) : StoreOp → Prop
  | record {path envelope} (hnone : d.secrets[path.display]? = none) (h : Stores path envelope d d') :
      Adds d d' (.setIfVersion path envelope none)
  | key {path value} (hnone : d.generatedPublicKeys[path.display]? = none)
      (h : d' = { d with generatedPublicKeys := d.generatedPublicKeys.insert path.display value }) :
      Adds d d' (.setGeneratedPublicKeyIfVersion path value none)
  | attached {path key record} (hrecord : d.secrets[path.display]? = some record)
      (hnone : record.publicKey = none)
      (h : d' = { d with
        secrets := d.secrets.insert path.display { record with publicKey := some key } }) :
      Adds d d' (.setPublicKeyIfVersion path key record.versionId none)

/-- The operations that a quarantined value may be adopted by. -/
inductive Adopting : StoreOp → Prop
  | record {path envelope} : Adopting (.setIfVersion path envelope none)
  | key {path value} : Adopting (.setGeneratedPublicKeyIfVersion path value none)
  | attached {path key version} : Adopting (.setPublicKeyIfVersion path key version none)

section

variable {libs : Manager.Libraries} {schema : Inventory.Schema} {id : String} {value : QuarantinedValue}

theorem adoptOp_adopting {stored : Option EncryptedSecret} {generated : Option GeneratedPublicKey} {op : StoreOp}
    (h : adoptOp libs schema id value stored generated = .ok op) : Adopting op := by
  obtain ⟨path, -, h⟩ := Checked.bind_ok h
  split at h
  next =>
    obtain ⟨envelope, -, h⟩ := Checked.bind_ok h
    obtain ⟨_, -, h⟩ := Checked.bind_ok h
    cases h
    exact .record
  next =>
    split at h
    next =>
      split at h
      next =>
        obtain ⟨_, -, h⟩ := Checked.bind_ok h
        cases h
        exact .key
      next =>
        obtain ⟨record, -, h⟩ := Checked.bind_ok h
        obtain ⟨_, -, h⟩ := Checked.bind_ok h
        cases h
        exact .attached
    next => cases h

/-- Whatever became of the store since `adopt` looked at it, its request
replaces nothing: where a value was entered meanwhile, the store refuses it. -/
theorem adopting_adds {libs : Inventory.Libraries} {call : StoreCall} {d d' : StoreDocument} {reply : StoreReply}
    (hop : Adopting call.op) (h : call.act libs d = .ok (reply, d')) : Adds d d' call.op := by
  have heffect := act_effect h
  obtain ⟨schema, op, faults⟩ := call
  unfold StoreCall.act at h
  cases hop with
  | record =>
    cases heffect with
    | setIfVersion hstores hversion => exact .record (Option.map_eq_none_iff.mp hversion) hstores
  | @key path value =>
    cases heffect with
    | setGeneratedPublicKeyIfVersion hd =>
      refine .key ?_ hd
      simp only [StoreOp.prepare] at h
      obtain ⟨action, a, hp, ha⟩ := replying_act h
      obtain ⟨leaf, -, hp⟩ := Checked.bind_ok hp
      cases leaf with
      | generated _ spec =>
        obtain ⟨_, -, hp⟩ := Checked.bind_ok hp
        cases hp
        obtain ⟨_, hversion, -⟩ := Checked.bind_ok ha
        exact Option.map_eq_none_iff.mp (Classical.not_not.mp (Checked.refuseIf_ok hversion))
      | stored _ _ => cases hp
      | operator _ _ => cases hp
  | @attached path key version =>
    simp only [StoreOp.prepare] at h
    obtain ⟨action, a, hp, ha⟩ := replying_act h
    obtain ⟨leaf, -, hp⟩ := Checked.bind_ok hp
    cases leaf with
    | generated _ spec =>
      obtain ⟨_, -, hp⟩ := Checked.bind_ok hp
      cases hp
      obtain ⟨record, hrecord, ha⟩ := Checked.bind_ok ha
      obtain ⟨_, hversion, ha⟩ := Checked.bind_ok ha
      obtain ⟨_, hkey, ha⟩ := Checked.bind_ok ha
      cases ha
      have hversion := Classical.not_not.mp (Checked.refuseIf_ok hversion)
      subst hversion
      exact .attached (Checked.orRefuse_ok hrecord) (Classical.not_not.mp (Checked.refuseIf_ok hkey)) rfl
    | stored _ _ => cases hp
    | operator _ _ => cases hp

end

/-- The public key that the first deployment's target returned is quarantined. -/
def boxReturned : QuarantinedValue :=
  ⟨"ns1.services.backup.key", "ns1", "first", 0, "the store refused it", .publicKey boxKey⟩

def boxManager : Manager.Libraries where
  toLibraries := boxLibraries
  debug text := text
  transport := ⟨fun _ => none, fun _ => none, fun text => text⟩
  sshKey _ := none
  sha256 bytes := bytes
  readToml _ := none
  verifyHeader _ _ := .ok ()
  generatorText _ := ""
  derivationText _ := ""

/-- The store holds the record that the key belongs to, and the quarantine the key. -/
def boxDisk : StoreDisk :=
  diskAfter boxLibraries {} [boxSet, ⟨boxSchema, .quarantine boxReturned (.ok "q1"), []⟩]

theorem boxReturned_op : adoptOp boxManager boxSchema "q1" boxReturned (some (tokenEnvelope 1)) none =
    .ok boxPublish.op := rfl

section

variable {libs : Manager.Libraries} {schema : Inventory.Schema} {id : String} {value : QuarantinedValue}
  {stored : Option EncryptedSecret} {generated : Option GeneratedPublicKey}

/-- `adopt` never replaces a stored value: whatever the store holds by the time
it is asked, and whatever faults the call meets, it is left as it is or gains
the value where it held none. -/
theorem adopt_replaces_nothing {call : StoreCall}
    (hop : adoptOp libs schema id value stored generated = .ok call.op) (disk : StoreDisk) :
    (call.exec libs.toLibraries disk).2.document = disk.document ∨
      Adds disk.document (call.exec libs.toLibraries disk).2.document call.op := by
  rcases @exec_document libs.toLibraries call disk with hsame | ⟨reply, hact⟩
  · exact Or.inl hsame
  · exact Or.inr (adopting_adds (adoptOp_adopting hop) hact)

/-- The record has a public key by the time the quarantined one is adopted. -/
theorem boxReturned_replaces_nothing :
    (boxPublish.exec boxLibraries (boxPublish.exec boxLibraries boxDisk).2).2.document =
      (boxPublish.exec boxLibraries boxDisk).2.document ∨
    Adds (boxPublish.exec boxLibraries boxDisk).2.document
      (boxPublish.exec boxLibraries (boxPublish.exec boxLibraries boxDisk).2).2.document boxPublish.op :=
  adopt_replaces_nothing boxReturned_op (boxPublish.exec boxLibraries boxDisk).2

end

/-- The operation is one that `adopt` may ask for after it listed the value. -/
def Adopts (libs : Manager.Libraries) (id : String) (value : QuarantinedValue) (op : StoreOp) : Prop :=
  ∃ schema stored generated, adoptOp libs schema id value stored generated = .ok op

/-- Where a run of `adopt` is: before it lists the quarantine, before it looks
at the store, before it asks for its value to be stored, and before it removes the entry. -/
inductive Adopter
  | started (id : String)
  | found (id : String) (value : QuarantinedValue)
  | looked (id : String) (value : QuarantinedValue) (op : StoreOp)
  | stored (id : String) (value : QuarantinedValue) (op : StoreOp)

/-- A value that `adopt` had stored: its entry, the request, and the documents around it. -/
structure Adopted where
  id : String
  value : QuarantinedValue
  op : StoreOp
  before : StoreDocument
  after : StoreDocument

/-- The store, the runs of `adopt` under way, and a record of what happened:
all values seen in the quarantine, and the entries discarded and adopted. -/
structure Clients where
  disk : StoreDisk
  adopters : Nat → Option Adopter
  seen : List (String × QuarantinedValue)
  discarded : List String
  adopted : List Adopted

/-- A store that may have changed: what its quarantine shows has been seen. -/
def Clients.see (w : Clients) (disk : StoreDisk) : Clients :=
  { w with
    disk := disk
    seen := disk.document.quarantine.toList ++ w.seen }

def Clients.set (w : Clients) (n : Nat) (next : Option Adopter) : Clients :=
  { w with adopters := Function.update w.adopters n next }

/-- What an operation of anybody else may be: it does not take from the
quarantine, and the id it draws for an entry was never drawn before. -/
def Clients.Foreign (w : Clients) (op : StoreOp) : Prop :=
  (∀ id, op ≠ .removeQuarantined id) ∧
    ∀ value id, op = .quarantine value (.ok id) → ∀ other, (id, other) ∉ w.seen

section

variable (libs : Manager.Libraries)

/-- One step of one client. Any number of `adopt`s, `discard`s and other users
of the store interleave, and every call may meet faults. -/
inductive Step (w : Clients) : Clients → Prop
  | begins {n id} (hn : w.adopters n = none) : Step w (w.set n (some (.started id)))
  | finds {n id value} (hn : w.adopters n = some (.started id))
      (hvalue : w.disk.document.quarantine[id]? = some value) : Step w (w.set n (some (.found id value)))
  -- what it sees may be gone by the time it asks for more
  | looks {n id value schema stored generated op} (hn : w.adopters n = some (.found id value))
      (hop : adoptOp libs schema id value stored generated = .ok op) :
      Step w (w.set n (some (.looked id value op)))
  | stores {n id value} {call : StoreCall} (hn : w.adopters n = some (.looked id value call.op))
      (hdone : (call.exec libs.toLibraries w.disk).1 = .done .updated) :
      Step w { (w.see (call.exec libs.toLibraries w.disk).2).set n (some (.stored id value call.op)) with
        adopted := ⟨id, value, call.op, w.disk.document, (call.exec libs.toLibraries w.disk).2.document⟩ ::
          w.adopted }
  | refused {n id value} {call : StoreCall} (hn : w.adopters n = some (.looked id value call.op)) :
      Step w ((w.see (call.exec libs.toLibraries w.disk).2).set n none)
  | clears {n id value op} {call : StoreCall} (hn : w.adopters n = some (.stored id value op))
      (hcall : call.op = .removeQuarantined id) :
      Step w ((w.see (call.exec libs.toLibraries w.disk).2).set n none)
  | gives {n} : Step w (w.set n none)
  | discards {id} {call : StoreCall} (hcall : call.op = .removeQuarantined id) :
      Step w { w.see (call.exec libs.toLibraries w.disk).2 with discarded := id :: w.discarded }
  | other {call : StoreCall} (hcall : w.Foreign call.op) :
      Step w (w.see (call.exec libs.toLibraries w.disk).2)

end

/-- What the records know of an adopter's place. -/
def Adopter.Placed (libs : Manager.Libraries) (w : Clients) : Adopter → Prop
  | .started _ => True
  | .found id value => (id, value) ∈ w.seen
  | .looked id value op => (id, value) ∈ w.seen ∧ Adopts libs id value op
  | .stored id value _ => (id, value) ∈ w.seen ∧ ∃ a ∈ w.adopted, a.id = id ∧ a.value = value

/-- What the records say is so, and what was seen in the quarantine is still
there, or was discarded, or was adopted before its entry was removed. -/
structure Clients.Kept (libs : Manager.Libraries) (w : Clients) : Prop where
  shown : ∀ id value, w.disk.document.quarantine[id]? = some value → (id, value) ∈ w.seen
  once : ∀ id value value', (id, value) ∈ w.seen → (id, value') ∈ w.seen → value = value'
  placed : ∀ n a, w.adopters n = some a → a.Placed libs w
  adopted : ∀ a ∈ w.adopted, Adopts libs a.id a.value a.op ∧ Adds a.before a.after a.op
  kept : ∀ id value, (id, value) ∈ w.seen → w.disk.document.quarantine[id]? = some value ∨
    id ∈ w.discarded ∨ ∃ a ∈ w.adopted, a.id = id ∧ a.value = value

section

variable {libs : Manager.Libraries} {w w' : Clients}

theorem mem_toList {m : BTreeMap String QuarantinedValue} {id : String} {value : QuarantinedValue} :
    (id, value) ∈ m.toList ↔ m[id]? = some value := by
  simp [Std.ExtTreeMap.mem_toList_iff_getElem?_eq_some]

theorem quarantine_act {libs : Inventory.Libraries} {call : StoreCall} {d d' : StoreDocument}
    {reply : StoreReply} {value : QuarantinedValue} {random : Except String String}
    (hop : call.op = .quarantine value random) (h : call.act libs d = .ok (reply, d')) :
    ∃ id, random = .ok id ∧ d'.quarantine = d.quarantine.insert id value := by
  unfold StoreCall.act at h
  rw [hop] at h
  simp only [StoreOp.prepare] at h
  obtain ⟨action, a, hp, ha⟩ := replying_act h
  obtain ⟨_, -, hp⟩ := Checked.bind_ok hp
  obtain ⟨id, hid, hp⟩ := Checked.bind_ok hp
  cases hp
  obtain ⟨_, -, ha⟩ := Checked.bind_ok ha
  cases ha
  cases random with
  | error error => cases hid
  | ok =>
    cases hid
    exact ⟨_, rfl, rfl⟩

/-- Only two operations touch the quarantine. -/
theorem effect_quarantine {d d' : StoreDocument} {op : StoreOp} (h : StoreEffect d d' op)
    (hadds : ∀ value random, op ≠ .quarantine value random) (hremoves : ∀ id, op ≠ .removeQuarantined id) :
    d'.quarantine = d.quarantine := by
  cases h with
  | set hs => rw [hs.rest]
  | setIfVersion hs => rw [hs.rest]
  | remove hd => rw [hd]
  | removeIfVersion hd => rw [hd]
  | setGeneratedPublicKeyIfVersion hd => rw [hd]
  | setPublicKeyIfVersion _ hd => rw [hd]
  | setPublicInfoIfVersion _ _ hd => rw [hd]
  | removePublicInfoIfVersion _ _ hd => rw [hd]
  | quarantine => exact absurd rfl (hadds _ _)
  | removeQuarantined => exact absurd rfl (hremoves _)

/-- A call that may not remove leaves every entry, and adds at most one, under the id it drew. -/
theorem exec_keeps {libs : Inventory.Libraries} (call : StoreCall) (disk : StoreDisk)
    (hremoves : ∀ id, call.op ≠ .removeQuarantined id) :
    (call.exec libs disk).2.document.quarantine = disk.document.quarantine ∨
      ∃ id value, call.op = .quarantine value (.ok id) ∧
        (call.exec libs disk).2.document.quarantine = disk.document.quarantine.insert id value := by
  rcases @exec_document libs call disk with h | ⟨reply, h⟩
  · exact Or.inl (by rw [h])
  · by_cases hadds : ∃ value random, call.op = .quarantine value random
    · obtain ⟨value, random, hop⟩ := hadds
      obtain ⟨id, rfl, hquarantine⟩ := quarantine_act hop h
      exact Or.inr ⟨id, value, hop, hquarantine⟩
    · refine Or.inl (effect_quarantine (act_effect h) (fun value random hop => ?_) hremoves)
      exact hadds ⟨value, random, hop⟩

/-- A removal leaves every other entry. -/
theorem exec_removes {libs : Inventory.Libraries} {call : StoreCall} {id : String} (disk : StoreDisk)
    (hop : call.op = .removeQuarantined id) {other : String} {value : QuarantinedValue} :
    ((call.exec libs disk).2.document.quarantine[other]? = some value →
      disk.document.quarantine[other]? = some value) ∧
    (other ≠ id → disk.document.quarantine[other]? = some value →
      (call.exec libs disk).2.document.quarantine[other]? = some value) := by
  rcases @exec_document libs call disk with h | ⟨reply, h⟩
  · rw [h]
    exact ⟨fun h => h, fun _ h => h⟩
  · have heffect := act_effect h
    rw [hop] at heffect
    cases heffect with
    | removeQuarantined hd =>
      rw [hd]
      have herase : (disk.document.quarantine.erase id)[other]? =
          if id = other then none else disk.document.quarantine[other]? := by
        simp [Std.ExtTreeMap.getElem?_erase]
      simp only [herase]
      by_cases hsame : id = other
      · rw [if_pos hsame]
        exact ⟨nofun, fun hne => absurd hsame.symm hne⟩
      · rw [if_neg hsame]
        exact ⟨fun hvalue => hvalue, fun _ hvalue => hvalue⟩

theorem Adopter.Placed.mono {a : Adopter} (h : a.Placed libs w) (hseen : w.seen ⊆ w'.seen)
    (hadopted : w.adopted ⊆ w'.adopted) : a.Placed libs w' := by
  cases a with
  | started => trivial
  | found => exact hseen h
  | looked => exact ⟨hseen h.1, h.2⟩
  | stored =>
    obtain ⟨hold, a, ha, hsame⟩ := h
    exact ⟨hseen hold, a, hadopted ha, hsame⟩

theorem Clients.Kept.set (h : w.Kept libs) {n : Nat} {a : Adopter} (ha : a.Placed libs w) :
    (w.set n (some a)).Kept libs := by
  refine ⟨h.shown, h.once, fun m b hm => ?_, h.adopted, h.kept⟩
  have hsame : b.Placed libs w := by
    by_cases hmn : m = n
    · subst hmn
      have hb : a = b := by simpa [Clients.set] using hm
      exact hb ▸ ha
    · exact h.placed m b (by simpa [Clients.set, hmn] using hm)
  exact hsame.mono (List.Subset.refl _) (List.Subset.refl _)

theorem Clients.Kept.unset (h : w.Kept libs) (n : Nat) : (w.set n none).Kept libs := by
  refine ⟨h.shown, h.once, fun m b hm => ?_, h.adopted, h.kept⟩
  have hmn : m ≠ n := by
    rintro rfl
    simp [Clients.set] at hm
  have hsame : b.Placed libs w := h.placed m b (by simpa [Clients.set, hmn] using hm)
  exact hsame.mono (List.Subset.refl _) (List.Subset.refl _)

/-- A store shows what was seen: no id a second value, and no entry gone without a reason. -/
theorem Clients.Kept.see (h : w.Kept libs) {disk : StoreDisk}
    (honce : ∀ id value value', disk.document.quarantine[id]? = some value → (id, value') ∈ w.seen →
      value = value')
    (hkept : ∀ id value, w.disk.document.quarantine[id]? = some value →
      disk.document.quarantine[id]? = some value ∨ id ∈ w.discarded ∨
        ∃ a ∈ w.adopted, a.id = id ∧ a.value = value) : (w.see disk).Kept libs := by
  have hseen : w.seen ⊆ (w.see disk).seen := List.subset_append_right _ _
  have hshown (id : String) (value : QuarantinedValue) (hvalue : disk.document.quarantine[id]? = some value) :
      (id, value) ∈ disk.document.quarantine.toList ++ w.seen :=
    List.mem_append_left w.seen (mem_toList.mpr hvalue)
  refine ⟨hshown,
    fun id value value' hvalue hvalue' => ?_,
    fun n a hn => (h.placed n a hn).mono hseen (List.Subset.refl _), h.adopted, fun id value hvalue => ?_⟩
  · rcases List.mem_append.mp hvalue with hnow | hold <;>
    rcases List.mem_append.mp hvalue' with hnow' | hold'
    · exact Option.some.inj ((mem_toList.mp hnow).symm.trans (mem_toList.mp hnow'))
    · exact honce id value value' (mem_toList.mp hnow) hold'
    · exact (honce id value' value (mem_toList.mp hnow') hold).symm
    · exact h.once id value value' hold hold'
  · rcases List.mem_append.mp hvalue with hnow | hold
    · exact Or.inl (mem_toList.mp hnow)
    · rcases h.kept id value hold with hthere | hgone
      · exact hkept id value hthere
      · exact Or.inr hgone

theorem Clients.Kept.seeForeign (h : w.Kept libs) {call : StoreCall} (hcall : w.Foreign call.op) :
    (w.see (call.exec libs.toLibraries w.disk).2).Kept libs := by
  obtain ⟨hremoves, hfresh⟩ := hcall
  rcases @exec_keeps libs.toLibraries call w.disk hremoves with hsame | ⟨id, value, hop, hinsert⟩
  · refine h.see (fun other found found' hfound hseen => ?_) fun other found hfound => ?_
    · rw [hsame] at hfound
      exact h.once other found found' (h.shown other found hfound) hseen
    · exact Or.inl (by rw [hsame]; exact hfound)
  · have hget (other : String) : (w.disk.document.quarantine.insert id value)[other]? =
        if id = other then some value else w.disk.document.quarantine[other]? := by
      simp [Std.ExtTreeMap.getElem?_insert]
    have hnew := hfresh value id hop
    refine h.see (fun other found found' hfound hseen => ?_) fun other found hfound => ?_
    · rw [hinsert, hget] at hfound
      by_cases hsame : id = other
      · subst hsame
        exact absurd hseen (hnew found')
      · rw [if_neg hsame] at hfound
        exact h.once other found found' (h.shown other found hfound) hseen
    · have hne : id ≠ other := by
        rintro rfl
        exact hnew found (h.shown _ found hfound)
      refine Or.inl ?_
      rw [hinsert, hget, if_neg hne]
      exact hfound

/-- An entry may be removed once it is discarded or its value was adopted. -/
theorem Clients.Kept.seeRemoval (h : w.Kept libs) {call : StoreCall} {id : String}
    (hcall : call.op = .removeQuarantined id)
    (hreason : ∀ value, (id, value) ∈ w.seen → id ∈ w.discarded ∨ ∃ a ∈ w.adopted, a.id = id ∧ a.value = value) :
    (w.see (call.exec libs.toLibraries w.disk).2).Kept libs := by
  refine h.see (fun other found found' hfound hseen => ?_) fun other found hfound => ?_
  · have hfound := (exec_removes w.disk hcall).1 hfound
    exact h.once other found found' (h.shown other found hfound) hseen
  · by_cases hsame : other = id
    · subst hsame
      exact Or.inr (hreason found (h.shown other found hfound))
    · exact Or.inl ((exec_removes w.disk hcall).2 hsame hfound)

theorem Adopts.adopting {id : String} {value : QuarantinedValue} {op : StoreOp} (h : Adopts libs id value op) :
    Adopting op := by
  obtain ⟨_, _, _, hop⟩ := h
  exact adoptOp_adopting hop

/-- An operation that stores a value is nobody's removal or entry. -/
theorem Adopting.foreign {op : StoreOp} (h : Adopting op) : w.Foreign op := by
  cases h <;> exact ⟨nofun, nofun⟩

theorem Clients.Kept.discard (h : w.Kept libs) (id : String) :
    Clients.Kept libs { w with discarded := id :: w.discarded } := by
  refine ⟨h.shown, h.once, fun n a hn => (h.placed n a hn).mono (List.Subset.refl _) (List.Subset.refl _),
    h.adopted, fun id' value hvalue => ?_⟩
  rcases h.kept id' value hvalue with hthere | hgone | hadopted
  · exact Or.inl hthere
  · exact Or.inr (Or.inl (List.mem_cons_of_mem _ hgone))
  · exact Or.inr (Or.inr hadopted)

theorem Clients.Kept.adopt (h : w.Kept libs) {a : Adopted}
    (ha : Adopts libs a.id a.value a.op ∧ Adds a.before a.after a.op) :
    Clients.Kept libs { w with adopted := a :: w.adopted } := by
  refine ⟨h.shown, h.once,
    fun n b hn => (h.placed n b hn).mono (List.Subset.refl _) (List.subset_cons_self _ _),
    fun b hb => ?_, fun id value hvalue => ?_⟩
  · rcases List.mem_cons.mp hb with rfl | hb
    · exact ha
    · exact h.adopted b hb
  · rcases h.kept id value hvalue with hthere | hgone | ⟨b, hb, hsame⟩
    · exact Or.inl hthere
    · exact Or.inr (Or.inl hgone)
    · exact Or.inr (Or.inr ⟨b, List.mem_cons_of_mem _ hb, hsame⟩)

theorem Clients.Kept.step (h : w.Kept libs) (hs : Step libs w w') : w'.Kept libs := by
  cases hs with
  | begins => exact h.set trivial
  | @finds n id value hn hvalue => exact h.set (h.shown id value hvalue)
  | @looks n id value schema stored generated op hn hop =>
    have hseen : (id, value) ∈ w.seen := h.placed n _ hn
    exact h.set ⟨hseen, schema, stored, generated, hop⟩
  | @stores n id value call hn hdone =>
    obtain ⟨hseen, hadopts⟩ : (id, value) ∈ w.seen ∧ Adopts libs id value call.op := h.placed n _ hn
    obtain ⟨document, hact, hfile⟩ := exec_done hdone
    have hdocument : (call.exec libs.toLibraries w.disk).2.document = document := by
      rw [StoreDisk.document, hfile]
      rfl
    have hadds : Adds w.disk.document (call.exec libs.toLibraries w.disk).2.document call.op := by
      rw [hdocument]
      exact adopting_adds hadopts.adopting hact
    have hafter : (w.see (call.exec libs.toLibraries w.disk).2).Kept libs :=
      h.seeForeign hadopts.adopting.foreign
    have hlogged := hafter.adopt (a := ⟨id, value, call.op, w.disk.document,
      (call.exec libs.toLibraries w.disk).2.document⟩) ⟨hadopts, hadds⟩
    have hplaced : (Adopter.stored id value call.op).Placed libs
        { w.see (call.exec libs.toLibraries w.disk).2 with
          adopted := ⟨id, value, call.op, w.disk.document, (call.exec libs.toLibraries w.disk).2.document⟩ ::
            w.adopted } :=
      ⟨List.mem_append_right _ hseen, _, List.mem_cons_self, rfl, rfl⟩
    exact hlogged.set hplaced
  | @refused n id value call hn =>
    obtain ⟨-, hadopts⟩ : (id, value) ∈ w.seen ∧ Adopts libs id value call.op := h.placed n _ hn
    exact Clients.Kept.unset (h.seeForeign hadopts.adopting.foreign) n
  | @clears n id value op call hn hcall =>
    obtain ⟨hseen, hadopted⟩ : (id, value) ∈ w.seen ∧ ∃ a ∈ w.adopted, a.id = id ∧ a.value = value :=
      h.placed n _ hn
    have hafter : (w.see (call.exec libs.toLibraries w.disk).2).Kept libs := by
      refine h.seeRemoval hcall fun value' hvalue' => Or.inr ?_
      rw [h.once id value' value hvalue' hseen]
      exact hadopted
    exact hafter.unset n
  | @gives n => exact h.unset n
  | @discards id call hcall => exact (h.discard id).seeRemoval hcall fun _ _ => Or.inl List.mem_cons_self
  | other hcall => exact h.seeForeign hcall

/-- Nothing runs yet, and the quarantine may hold what earlier runs left. -/
def starting (disk : StoreDisk) : Clients :=
  ⟨disk, fun _ => none, disk.document.quarantine.toList, [], []⟩

theorem starting_kept (disk : StoreDisk) : (starting disk).Kept libs := by
  have hshown (id : String) (value : QuarantinedValue) :
      (id, value) ∈ (starting disk).seen ↔ disk.document.quarantine[id]? = some value := mem_toList
  refine ⟨fun id value hvalue => (hshown id value).mpr hvalue, fun id value value' hvalue hvalue' => ?_,
    fun n a ha => ?_, fun a ha => ?_, fun id value hvalue => Or.inl ((hshown id value).mp hvalue)⟩
  · exact Option.some.inj (((hshown id value).mp hvalue).symm.trans ((hshown id value').mp hvalue'))
  · cases ha
  · cases ha

theorem run_kept {disk : StoreDisk} (hrun : ReflTransGen (Step libs) (starting disk) w) : w.Kept libs := by
  induction hrun with
  | refl => exact starting_kept disk
  | tail _ hs ih => exact ih.step hs

/-- In every run of any number of clients, a value that was ever seen in the
quarantine is there still, or its entry was discarded, or it was adopted: then
the store gained it where it held no value, and kept everything else. -/
theorem quarantined_never_lost {disk : StoreDisk} (hrun : ReflTransGen (Step libs) (starting disk) w)
    {id : String} {value : QuarantinedValue} (hseen : (id, value) ∈ w.seen) :
    w.disk.document.quarantine[id]? = some value ∨ id ∈ w.discarded ∨
      ∃ a ∈ w.adopted, a.id = id ∧ a.value = value ∧ Adopts libs id value a.op ∧
        Adds a.before a.after a.op := by
  rcases (run_kept hrun).kept id value hseen with hthere | hgone | ⟨a, ha, hid, hvalue⟩
  · exact Or.inl hthere
  · exact Or.inr (Or.inl hgone)
  · subst hid hvalue
    exact Or.inr (Or.inr ⟨a, ha, rfl, rfl, (run_kept hrun).adopted a ha⟩)

end

def boxAdopted : Clients :=
  { ((((starting boxDisk).set 0 (some (.started "q1"))).set 0 (some (.found "q1" boxReturned))).set 0
      (some (.looked "q1" boxReturned boxPublish.op))).see (boxPublish.exec boxLibraries boxDisk).2 |>.set 0
      (some (.stored "q1" boxReturned boxPublish.op)) with
    adopted := [⟨"q1", boxReturned, boxPublish.op, boxDisk.document,
      (boxPublish.exec boxLibraries boxDisk).2.document⟩] }

def boxRemove : StoreCall := ⟨boxSchema, .removeQuarantined "q1", []⟩

theorem boxDisk_entry : boxDisk.document.quarantine["q1"]? = some boxReturned := by decide +kernel

theorem boxAdopted_run : ReflTransGen (Step boxManager) (starting boxDisk)
    ((boxAdopted.see (boxRemove.exec boxLibraries boxAdopted.disk).2).set 0 none) := by
  have hdone : (boxPublish.exec boxLibraries boxDisk).1 = .done .updated := by decide +kernel
  have hstarted : Step boxManager (starting boxDisk) ((starting boxDisk).set 0 (some (.started "q1"))) := .begins rfl
  have hfound : Step boxManager _ (((starting boxDisk).set 0 (some (.started "q1"))).set 0
      (some (.found "q1" boxReturned))) := .finds rfl boxDisk_entry
  have hlooked : Step boxManager _ ((((starting boxDisk).set 0 (some (.started "q1"))).set 0
      (some (.found "q1" boxReturned))).set 0 (some (.looked "q1" boxReturned boxPublish.op))) := .looks rfl boxReturned_op
  have hstored : Step boxManager _ boxAdopted := .stores (n := 0) rfl hdone
  have hcleared : Step boxManager boxAdopted
      ((boxAdopted.see (boxRemove.exec boxLibraries boxAdopted.disk).2).set 0 none) := .clears rfl rfl
  exact ((((ReflTransGen.single hstarted).tail hfound).tail hlooked).tail hstored).tail hcleared

/-- The adopted key left the quarantine for the record it belongs to. -/
theorem boxReturned_kept : ∃ a ∈ boxAdopted.adopted, a.id = "q1" ∧ a.value = boxReturned ∧
    Adopts boxManager "q1" boxReturned a.op ∧ Adds a.before a.after a.op := by
  have hremoved : (boxRemove.exec boxLibraries boxAdopted.disk).2.document.quarantine["q1"]? = none := by
    decide +kernel
  rcases quarantined_never_lost boxAdopted_run
    (List.mem_append_right _ (List.mem_append_right _ (mem_toList.mpr boxDisk_entry))) with
    hthere | hgone | hadopted
  · exact absurd (hremoved.symm.trans hthere) (by simp)
  · cases hgone
  · exact hadopted

end NixSecrets.Quarantine
