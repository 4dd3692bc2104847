import NixSecrets.StoreDocument
import NixSecrets.FaultProgram

namespace NixSecrets.Inventory

open Faulty

/-- The store file and the temporary file beside it, each as the document its text encodes. -/
structure StoreDisk where
  file : Option StoreDocument := none
  temp : Option StoreDocument := none
  deriving DecidableEq

def StoreDisk.document (disk : StoreDisk) : StoreDocument := disk.file.getD {}

abbrev StoreProgram (α : Type) := Faulty StoreDisk (Stop StoreError) α

namespace SecretStore

def ioStep (effect : StoreDisk → StoreDisk) : StoreProgram Unit :=
  op (fun error => .refused (.io error)) effect

/-- A missing file is an empty document. -/
def readDocument : StoreProgram StoreDocument := do
  ioStep id
  op (fun error => .refused (.decode error)) id
  let disk ← read
  return disk.document

/-- The temporary file is renamed over the store file once it is complete. -/
def writeTemp (document : StoreDocument) : StoreProgram Unit := do
  op (fun error => .refused (.encode error)) id
  ioStep fun disk => { disk with temp := some document }
  ioStep id
  ioStep fun disk => { disk with file := some document, temp := none }
  -- The permissions of the file, then the directory it is in.
  ioStep id
  ioStep id
  ioStep id

def writeDocument (document : StoreDocument) : StoreProgram Unit := do
  ioStep fun disk => { disk with temp := some {} }
  match ← (writeTemp document).attempt with
  | .ok () => return ()
  | .error error => do
    let _ ← (ioStep fun disk => { disk with temp := none }).attempt
    throw error

def withLock {α : Type} (write : Bool) (action : Action α) : StoreProgram α := do
  ioStep id
  ioStep id
  ioStep id
  let document ← readDocument
  let (result, document) ← Faulty.ofExcept (action document)
  doIf (write = true) (writeDocument document)
  return result

/-- An operation checks its arguments, then acts under the exclusive lock. -/
def locked {α : Type} (prepared : Checked StoreError (Action α)) : StoreProgram α := do
  let action ← Faulty.ofExcept prepared
  withLock true action

end SecretStore

inductive StoreOp
  | set (path : SecretPath) (envelope : EncryptedSecret)
  | setIfVersion (path : SecretPath) (envelope : EncryptedSecret)
      (expectedVersion : Option (List UInt8))
  | remove (path : SecretPath)
  | removeIfVersion (path : SecretPath) (expectedVersion : List UInt8)
  | setGeneratedPublicKeyIfVersion (path : SecretPath) (value : GeneratedPublicKey)
      (expectedVersion : Option String)
  | setPublicKeyIfVersion (path : SecretPath) (publicKey : String) (expectedVersion : List UInt8)
      (expectedPublicKey : Option String)
  | setPublicInfoIfVersion (path : SecretPath) (value : PublicInfoRecord)
      (expectedVersion : Option String)
  | removePublicInfoIfVersion (path : SecretPath) (expectedVersion : String)
  | quarantine (value : QuarantinedValue) (random : Except String String)
  | removeQuarantined (id : String)

inductive StoreReply
  | updated
  | removed (existed : Bool)
  | quarantined (id : String)
  deriving DecidableEq, Repr

def replying {α : Type} (reply : α → StoreReply) (prepared : Checked StoreError (Action α)) :
    Checked StoreError (Action StoreReply) := do
  let action ← prepared
  return fun document => do
    let (result, document) ← action document
    return (reply result, document)

def StoreOp.prepare (libs : Libraries) (schema : Schema) : StoreOp → Checked StoreError (Action StoreReply)
  | .set path envelope => replying (fun _ => .updated) (SecretStore.set libs schema path envelope)
  | .setIfVersion path envelope expectedVersion =>
    replying (fun _ => .updated) (SecretStore.setIfVersion libs schema path envelope expectedVersion)
  | .remove path => replying .removed (SecretStore.remove schema path)
  | .removeIfVersion path expectedVersion =>
    replying .removed (SecretStore.removeIfVersion schema path expectedVersion)
  | .setGeneratedPublicKeyIfVersion path value expectedVersion =>
    replying (fun _ => .updated)
      (SecretStore.setGeneratedPublicKeyIfVersion libs schema path value expectedVersion)
  | .setPublicKeyIfVersion path publicKey expectedVersion expectedPublicKey =>
    replying (fun _ => .updated) (SecretStore.setPublicKeyIfVersion libs schema path publicKey
      expectedVersion expectedPublicKey)
  | .setPublicInfoIfVersion path value expectedVersion =>
    replying (fun _ => .updated)
      (SecretStore.setPublicInfoIfVersion libs schema path value expectedVersion)
  | .removePublicInfoIfVersion path expectedVersion =>
    replying .removed (SecretStore.removePublicInfoIfVersion schema path expectedVersion)
  | .quarantine value random => replying .quarantined (SecretStore.quarantine value random)
  | .removeQuarantined id => replying .removed (pure (SecretStore.removeQuarantined id))

/-- One call of the store: the schema it is checked against, and the faults it meets. -/
structure StoreCall where
  schema : Schema
  op : StoreOp
  faults : List Fault := []

section

variable (libs : Libraries)

/-- What the call does to a document, its checks before the lock included. -/
def StoreCall.act (call : StoreCall) (document : StoreDocument) :
    Checked StoreError (StoreReply × StoreDocument) := do
  let action ← call.op.prepare libs call.schema
  action document

def StoreCall.exec (call : StoreCall) (disk : StoreDisk) :
    Ended (Stop StoreError) StoreReply × StoreDisk :=
  let (ended, _, disk) := SecretStore.locked (call.op.prepare libs call.schema) call.faults disk
  (ended, disk)

/-- The disk after a sequence of calls, by any clients and processes. -/
def diskAfter (disk : StoreDisk) (calls : List StoreCall) : StoreDisk :=
  calls.foldl (fun disk call => (call.exec libs disk).2) disk

end

namespace SecretStore

variable {α : Type} {before : Option StoreDocument} {document : StoreDocument}

/-- A step that keeps the file, before or after the rename. -/
theorem meets_unrenamed {e : String → Stop StoreError} {file : Option StoreDocument}
    {effect : StoreDisk → StoreDisk} (hfile : file = before ∨ file = some document)
    (h : ∀ disk, (effect disk).file = disk.file) :
    Meets (·.file = file) (op e effect) (fun _ disk => disk.file = file)
      (fun disk => disk.file = before ∨ disk.file = some document) := by
  refine meets_op (R := (·.file = file)) (fun disk hd => (h disk).trans hd) fun disk hd => ?_
  rw [hd]
  exact hfile

theorem meets_writeTemp : Meets (fun disk => disk.file = before) (writeTemp document)
    (fun _ disk => disk.file = some document)
    (fun disk => disk.file = before ∨ disk.file = some document) := by
  have hleft : before = before ∨ before = some document := Or.inl rfl
  have hright : some document = before ∨ some document = some document := Or.inr rfl
  have hrename : Meets (fun disk : StoreDisk => disk.file = before)
      (ioStep fun disk => { disk with file := some document, temp := none })
      (fun _ disk => disk.file = some document)
      (fun disk => disk.file = before ∨ disk.file = some document) :=
    meets_op (R := fun disk : StoreDisk => disk.file = some document) (fun _ _ => rfl) fun _ hd => Or.inl hd
  unfold writeTemp
  refine meets_bind (meets_unrenamed hleft fun _ => rfl) fun _ => ?_
  refine meets_bind (meets_unrenamed hleft fun _ => rfl) fun _ => ?_
  refine meets_bind (meets_unrenamed hleft fun _ => rfl) fun _ => ?_
  refine meets_bind hrename fun _ => ?_
  refine meets_bind (meets_unrenamed hright fun _ => rfl) fun _ => ?_
  exact meets_bind (meets_unrenamed hright fun _ => rfl) fun _ =>
    meets_unrenamed hright fun _ => rfl

theorem meets_writeDocument : Meets (fun disk => disk.file = before) (writeDocument document)
    (fun _ disk => disk.file = some document)
    (fun disk => disk.file = before ∨ disk.file = some document) := by
  unfold writeDocument
  refine meets_bind (meets_unrenamed (Or.inl rfl) fun _ => rfl) fun _ => ?_
  refine meets_bind_attempt meets_writeTemp (fun _ => meets_pure fun _ h => h) fun error => ?_
  have hcleanup : Keeps (fun disk : StoreDisk => disk.file = before ∨ disk.file = some document)
      (ioStep fun disk => { disk with temp := none }).attempt := keeps_attempt (keeps_op fun _ h => h)
  exact meets_bind hcleanup fun _ => meets_throw fun _ h => h

theorem meets_readDocument {E : StoreDisk → Prop} (hE : ∀ disk, disk.file = before → E disk) :
    Meets (·.file = before) readDocument
      (fun read disk => disk.file = before ∧ read = before.getD {}) E := by
  unfold readDocument
  refine meets_bind (meets_op (R := fun disk : StoreDisk => disk.file = before) (fun _ h => h) hE) fun _ => ?_
  refine meets_bind (meets_op (R := fun disk : StoreDisk => disk.file = before) (fun _ h => h) hE) fun _ => ?_
  refine meets_bind (meets_read (R := fun read disk => disk.file = before ∧ read.file = before)
    fun _ h => ⟨h, h⟩) fun disk => ?_
  exact meets_pure fun _ h => ⟨h.1, by rw [StoreDisk.document, h.2]⟩

/-- However an operation on the store ends, the file holds the document from before, or
all of what the operation made of it; the latter if it succeeds. -/
theorem meets_locked (prepared : Checked StoreError (Action α)) :
    Meets (fun disk => disk.file = before) (locked prepared)
      (fun result disk => ∃ action document, prepared = .ok action ∧
        action (before.getD {}) = .ok (result, document) ∧ disk.file = some document)
      (fun disk => disk.file = before ∨ ∃ action result document, prepared = .ok action ∧
        action (before.getD {}) = .ok (result, document) ∧ disk.file = some document) := by
  unfold locked withLock
  refine meets_bind_ofExcept (fun _ h => Or.inl h) fun action hp => ?_
  have hkept : Meets (fun disk : StoreDisk => disk.file = before) (ioStep id)
      (fun _ disk => disk.file = before)
      (fun disk => disk.file = before ∨ ∃ action result document, prepared = .ok action ∧
        action (before.getD {}) = .ok (result, document) ∧ disk.file = some document) :=
    meets_op (R := fun disk : StoreDisk => disk.file = before) (fun _ h => h) fun _ h => Or.inl h
  refine meets_bind hkept fun _ => meets_bind hkept fun _ => meets_bind hkept fun _ => ?_
  refine meets_bind (meets_readDocument fun _ h => Or.inl h) fun document => ?_
  refine meets_bind_ofExcept (fun _ h => Or.inl h.1) fun result ha => ?_
  refine meets_pointwise fun disk hd => ?_
  rw [hd.2] at ha
  have hwrite := @meets_writeDocument before result.2
  refine meets_bind (Q := fun _ disk => disk.file = some result.2) ?_ fun _ => ?_
  · refine meets_doIf (fun _ => ?_) fun h => absurd rfl h
    refine hwrite.weaken (fun s hs => ?_) (fun _ _ h => h) fun s hs => ?_
    · rw [hs]
      exact hd.1
    · exact hs.imp_right fun h => ⟨action, result.1, result.2, hp, ha, h⟩
  · exact meets_pure fun _ h => ⟨action, result.2, hp, ha, h⟩

end SecretStore

section

variable {libs : Libraries} {call : StoreCall} {disk : StoreDisk}

theorem act_eq {document : StoreDocument} {action : Action StoreReply}
    (h : call.op.prepare libs call.schema = .ok action) : call.act libs document = action document := by
  rw [StoreCall.act, h]
  rfl

theorem exec_done {reply : StoreReply} (h : (call.exec libs disk).1 = .done reply) :
    ∃ document, call.act libs disk.document = .ok (reply, document) ∧
      (call.exec libs disk).2.file = some document := by
  have hm := SecretStore.meets_locked (call.op.prepare libs call.schema) call.faults disk rfl
  unfold StoreCall.exec at h ⊢
  split at hm
  next a rest s hr =>
    rw [hr] at h ⊢
    cases h
    obtain ⟨action, document, hp, ha, hf⟩ := hm
    exact ⟨document, (act_eq hp).trans ha, hf⟩
  next hr => rw [hr] at h; cases h
  next hr => rw [hr] at h; cases h

/-- An operation that does not succeed leaves the file, or all of its own document. -/
theorem exec_file (call : StoreCall) (disk : StoreDisk) :
    (call.exec libs disk).2.file = disk.file ∨ ∃ reply document,
      call.act libs disk.document = .ok (reply, document) ∧
      (call.exec libs disk).2.file = some document := by
  have hm := SecretStore.meets_locked (call.op.prepare libs call.schema) call.faults disk rfl
  unfold StoreCall.exec
  split at hm
  next a rest s hr =>
    rw [hr]
    obtain ⟨action, document, hp, ha, hf⟩ := hm
    exact Or.inr ⟨a, document, (act_eq hp).trans ha, hf⟩
  next hr =>
    rw [hr]
    refine hm.imp_right fun h => ?_
    obtain ⟨action, result, document, hp, ha, hf⟩ := h
    exact ⟨result, document, (act_eq hp).trans ha, hf⟩
  next hr =>
    rw [hr]
    refine hm.imp_right fun h => ?_
    obtain ⟨action, result, document, hp, ha, hf⟩ := h
    exact ⟨result, document, (act_eq hp).trans ha, hf⟩

/-- What a call leaves in the store file: the document before it or the one it made. -/
theorem exec_document (call : StoreCall) (disk : StoreDisk) :
    (call.exec libs disk).2.document = disk.document ∨ ∃ reply,
      call.act libs disk.document = .ok (reply, (call.exec libs disk).2.document) := by
  rcases @exec_file libs call disk with h | ⟨reply, document, ha, hf⟩
  · exact Or.inl (by rw [StoreDisk.document, h, StoreDisk.document])
  · have hdocument : (call.exec libs disk).2.document = document := by rw [StoreDisk.document, hf]; rfl
    exact Or.inr ⟨reply, by rw [hdocument]; exact ha⟩

/-- A property of documents that every accepted operation keeps holds after every run. -/
theorem diskAfter_keeps {P : StoreDocument → Prop} (hempty : P {})
    (hstep : ∀ call document reply document', P document →
      StoreCall.act libs call document = .ok (reply, document') → P document')
    (calls : List StoreCall) : P (diskAfter libs {} calls).document := by
  suffices h : ∀ disk : StoreDisk, P disk.document → P (diskAfter libs disk calls).document from
    h {} hempty
  induction calls with
  | nil => exact fun _ h => h
  | cons call calls ih =>
    intro disk hd
    refine ih (call.exec libs disk).2 ?_
    rcases @exec_document libs call disk with h | ⟨reply, h⟩
    · rw [h]
      exact hd
    · exact hstep call _ reply _ hd h

end

end NixSecrets.Inventory
