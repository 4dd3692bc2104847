import NixSecrets.ApprovalBroker
import NixSecrets.FaultProgram

namespace NixSecrets

/-- The text of an I/O error is the operating system's. -/
inductive DeployError
  | invalid (message : String)
  | io (error : String)
  | context (step error : String)
  | missing (message : String)
  deriving DecidableEq, Repr

def DeployError.during (step : String) : DeployError → DeployError
  | .io error => .context step error
  | .context inner error => .context (step ++ ": " ++ inner) error
  | .invalid message => .invalid (step ++ ": " ++ message)
  | .missing message => .missing message

def DeployError.display : DeployError → String
  | .invalid message => message
  | .io error => error
  | .context step error => step ++ ": " ++ error
  | .missing message => "not deployed: " ++ message

inductive SecretClass
  | setup | service | backup | publicInfo
  deriving DecidableEq, Repr

/-- The path component of a class; public information has none. -/
def SecretClass.directory : SecretClass → List String
  | .setup => ["setup"]
  | .service => ["service"]
  | .backup => ["backup"]
  | .publicInfo => []

structure ResolvedSecret where
  identifier : String
  versionId : String
  service : String
  secretClass : SecretClass
  secret : String
  contents : List UInt8
  owner : UInt32
  group : UInt32
  mode : UInt32
  auditSshUser : Option String := none
  auditKeyNames : List String := []
  deriving DecidableEq, Repr

abbrev ResolvedBatch := List ResolvedSecret

structure AuditDetail where
  sshUser : Option String
  keyNames : List String
  deriving DecidableEq, Repr

namespace ResolvedBatch

def partition (batch : ResolvedBatch) : ResolvedBatch × ResolvedBatch :=
  (batch.filter (·.secretClass ≠ .publicInfo), batch.filter (·.secretClass = .publicInfo))

def auditDetails (batch : ResolvedBatch) : BTreeMap String AuditDetail :=
  batch.foldl (fun details entry =>
    details.insert entry.identifier ⟨entry.auditSshUser, entry.auditKeyNames⟩) ∅

end ResolvedBatch

def validateName (kind value : String) : Except DeployError Unit :=
  if value.utf8ByteSize ≠ 0 ∧ value.utf8ByteSize ≤ 128 ∧
      value.toList.all (fun c => c.isAlphanum || c == '.' || c == '_' || c == '-') ∧
      value ≠ "." ∧ value ≠ ".." then .ok ()
  else .error (.invalid ("invalid " ++ kind ++ " name"))

def validateMode (mode : UInt32) : Except DeployError Unit :=
  if mode &&& ~~~0o440 ≠ 0 ∨ mode &&& 0o400 = 0 then
    .error (.invalid "mode must grant owner read access and no write, execute, or other access")
  else .ok ()

structure ValidatedSecret where
  spec : ResolvedSecret
  relative : List String
  deriving DecidableEq, Repr

def ResolvedSecret.relative (spec : ResolvedSecret) : List String :=
  spec.service :: spec.secretClass.directory ++ [spec.secret]

def ResolvedSecret.inValue (spec : ResolvedSecret) : DeployError → DeployError :=
  DeployError.during ("validating " ++ spec.identifier)

def ResolvedSecret.validateClassMode (spec : ResolvedSecret) : Except DeployError Unit :=
  if spec.secretClass = .publicInfo then
    if spec.mode ≠ 0o644 then .error (.invalid "public-info mode must be 0644") else .ok ()
  else validateMode spec.mode

/-- The checks of one entry, given the destinations of the entries before it. -/
def validateEntry (seen : List (List String)) (spec : ResolvedSecret) :
    Except DeployError ValidatedSecret := do
  (validateName "service" spec.service).mapError spec.inValue
  (validateName "secret" spec.secret).mapError spec.inValue
  spec.validateClassMode.mapError spec.inValue
  if spec.identifier = "" ∨ spec.versionId = "" then
    .error (.invalid "secret identifier and version must not be empty")
  else if spec.relative ∈ seen then
    .error (spec.inValue (.invalid ("duplicate destination: " ++ "/".intercalate spec.relative)))
  else .ok ⟨spec, spec.relative⟩

def validateEntries (seen : List (List String)) :
    List ResolvedSecret → Except DeployError (List ValidatedSecret)
  | [] => .ok []
  | spec :: rest => do
    let entry ← validateEntry seen spec
    let entries ← validateEntries (entry.relative :: seen) rest
    return entry :: entries

def validate (batch : ResolvedBatch) : Except DeployError (List ValidatedSecret) :=
  if batch = [] then .error (.invalid "deployment is empty") else validateEntries [] batch

theorem validateEntry_ok {seen : List (List String)} {spec : ResolvedSecret}
    {entry : ValidatedSecret} (h : validateEntry seen spec = .ok entry) :
    entry = ⟨spec, spec.relative⟩ ∧ spec.relative ∉ seen ∧
      validateName "service" spec.service = .ok () ∧ validateName "secret" spec.secret = .ok () := by
  simp only [validateEntry, except_bind_ok, except_mapError_ok] at h
  obtain ⟨_, hs, _, hn, _, _, h⟩ := h
  split at h
  next => cases h
  next =>
    split at h
    next => cases h
    next hd =>
      cases h
      exact ⟨rfl, hd, hs, hn⟩

/-- Accepted entries have names that are fit for paths, and distinct destinations. -/
structure Accepted (entries : List ValidatedSecret) : Prop where
  named : ∀ e ∈ entries, e.relative = e.spec.relative ∧
    validateName "service" e.spec.service = .ok () ∧ validateName "secret" e.spec.secret = .ok ()
  distinct : (entries.map ValidatedSecret.relative).Nodup

theorem validateEntries_ok {seen : List (List String)} {batch : List ResolvedSecret}
    {entries : List ValidatedSecret} (h : validateEntries seen batch = .ok entries) :
    entries.map ValidatedSecret.spec = batch ∧ Accepted entries ∧
      ∀ e ∈ entries, e.relative ∉ seen := by
  induction batch generalizing seen entries with
  | nil =>
    cases h
    exact ⟨rfl, ⟨by simp, by simp⟩, by simp⟩
  | cons spec rest ih =>
    simp only [validateEntries, except_bind_ok] at h
    obtain ⟨entry, he, tail, ht, h⟩ := h
    cases h
    obtain ⟨rfl, hseen, hs, hn⟩ := validateEntry_ok he
    obtain ⟨hm, ha, hd⟩ := ih ht
    refine ⟨by simp [hm], ⟨?_, ?_⟩, ?_⟩
    · intro e hmem
      rcases List.mem_cons.mp hmem with rfl | hmem
      · exact ⟨rfl, hs, hn⟩
      · exact ha.named e hmem
    · refine List.nodup_cons.mpr ⟨?_, ha.distinct⟩
      intro hmem
      obtain ⟨e, hmem, he⟩ := List.mem_map.mp hmem
      exact hd e hmem (by rw [he]; exact List.mem_cons_self)
    · intro e hmem
      rcases List.mem_cons.mp hmem with rfl | hmem
      · exact hseen
      · exact fun hs => hd e hmem (List.mem_cons_of_mem _ hs)

theorem validate_ok {batch : ResolvedBatch} {entries : List ValidatedSecret}
    (h : validate batch = .ok entries) :
    entries.map ValidatedSecret.spec = batch ∧ entries ≠ [] ∧ Accepted entries := by
  unfold validate at h
  split at h
  next => cases h
  next hne =>
    obtain ⟨hm, ha, _⟩ := validateEntries_ok h
    refine ⟨hm, ?_, ha⟩
    rintro rfl
    exact hne hm.symm

end NixSecrets
