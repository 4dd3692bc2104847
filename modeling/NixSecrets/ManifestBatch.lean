import NixSecrets.ManifestSchema

namespace NixSecrets

structure SecretDeployment where
  identifier : String
  versionId : String
  contentsBase64 : String
  deriving DecidableEq, Repr

structure DeploymentBatch where
  version : UInt32
  requestedIdentifiers : List String
  entries : List SecretDeployment
  deriving DecidableEq, Repr

def legacyDeploymentProtocolVersion : UInt16 := 1

def deploymentProtocolVersion : UInt16 := 5

/-- A version beyond sixteen bits counts as zero. -/
def supportedVersion (version : UInt32) : Bool :=
  let narrow := if version.toNat < 2 ^ 16 then version.toUInt16 else 0
  legacyDeploymentProtocolVersion ≤ narrow && narrow ≤ deploymentProtocolVersion

def collectSupplied :
    List SecretDeployment → BTreeMap String SecretDeployment →
      Except DeployError (BTreeMap String SecretDeployment)
  | [], supplied => .ok supplied
  | entry :: rest, supplied =>
    if entry.identifier ∈ supplied then
      .error (.invalid ("duplicate secret identifier: " ++ entry.identifier))
    else collectSupplied rest (supplied.insert entry.identifier entry)

/-- The host this receiver runs on, as its manifest describes it. -/
structure TargetHost where
  hostname : String
  manifest : String
  schema : Except DeployError Schema
  checks : Checks

namespace TargetHost

variable (host : TargetHost)

def expected (schema : Schema) : Except DeployError ManifestEntries :=
  match schema[host.hostname]? with
  | some services => flattenHost host.hostname services ∅
  | none => .error (.invalid ("manifest has no host " ++ host.hostname))

def checkPublicDestination (entry : ManifestEntry) : Except DeployError Unit :=
  match entry.publicInfo with
  | some attestation =>
    if entry.destination.path ≠ "/persistent/public-info/" ++ attestation.sharedId then
      .error (.invalid "public-info destination does not match its shared ID")
    else .ok ()
  | none => .ok ()

def lookUp {α : Type} (absent : String) : Option α → Except DeployError α
  | some a => .ok a
  | none => .error (.invalid absent)

/-- What the manifest and the batch say of one identifier. -/
def requestedValue (expected : ManifestEntries) (supplied : BTreeMap String SecretDeployment)
    (identifier : String) : Except DeployError (ManifestEntry × SecretDeployment × List UInt8) := do
  let entry ← lookUp ("requested secret is absent from manifest: " ++ identifier) expected[identifier]?
  let value ← lookUp ("missing secret: " ++ identifier) supplied[identifier]?
  if value.versionId = "" ∨ 256 < value.versionId.utf8ByteSize then
    .error (.invalid ("invalid version for " ++ identifier))
  else do
    let contents ← lookUp ("invalid base64 for " ++ identifier)
      (host.checks.decodeBase64 value.contentsBase64)
    checkPublicDestination entry
    return (entry, value, contents)

def resolvedSecret (identifier versionId : String) (contents : List UInt8) (entry : ManifestEntry)
    (spec : Expected) (keyNames : List String) : ResolvedSecret where
  identifier
  versionId
  service := spec.service
  secretClass := spec.secretClass
  secret := spec.secret
  contents
  owner := spec.owner
  group := spec.group
  mode := spec.mode
  auditSshUser := entry.destination.authorizedForUser
  auditKeyNames := keyNames

/-- One requested value: resolved, left out with a reason, or a refusal of the batch. -/
def resolveRequested (expected : ManifestEntries) (supplied : BTreeMap String SecretDeployment)
    (identifier : String) : Except DeployError (Except String ResolvedSecret) := do
  let (entry, value, contents) ← host.requestedValue expected supplied identifier
  match resolveContents host.checks entry contents with
  | .ok (spec, keyNames) =>
    return .ok (resolvedSecret identifier value.versionId contents entry spec keyNames)
  | .error (.missing reason) => return .error reason
  | .error error => .error error

/-- The requested identifiers are distinct, so none is looked up twice. -/
def resolveAll (expected : ManifestEntries) (supplied : BTreeMap String SecretDeployment) :
    List String → Except DeployError (ResolvedBatch × BTreeMap String String)
  | [] => .ok ([], ∅)
  | identifier :: rest => do
    let resolved ← host.resolveRequested expected supplied identifier
    let (entries, leftOut) ← resolveAll expected supplied rest
    match resolved with
    | .ok entry => return (entry :: entries, leftOut)
    | .error reason => return (entries, leftOut.insert identifier reason)

def validateManifest (schema : Schema) (batch : DeploymentBatch) :
    Except DeployError (ResolvedBatch × BTreeMap String String) := do
  if supportedVersion batch.version = false then .error (.invalid "unsupported deployment version")
  else do
    let expected ← host.expected schema
    if batch.requestedIdentifiers = [] then .error (.invalid "deployment requests no secrets")
    else do
      let requested : BTreeSet String := .ofList batch.requestedIdentifiers compare
      if requested.size ≠ batch.requestedIdentifiers.length then
        .error (.invalid "deployment contains duplicate requested identifiers")
      else do
        let supplied ← collectSupplied batch.entries ∅
        if supplied.size ≠ requested.size ∨ ∃ identifier ∈ supplied.keys, identifier ∉ requested then
          .error (.invalid "deployment entries do not exactly match the requested identifiers")
        else host.resolveAll expected supplied requested.toList

/-- Leaves out each value this host cannot accept; anything malformed refuses the batch. -/
def loadAndValidateLeavingOut (batch : DeploymentBatch) :
    Except DeployError (ResolvedBatch × BTreeMap String String) :=
  if (PathText.parse host.manifest).absolute = false then
    .error (.invalid "manifest path must be absolute")
  else do
    let schema ← host.schema
    host.validateManifest schema batch

variable {host}

theorem resolveRequested_identifier {expected : ManifestEntries}
    {supplied : BTreeMap String SecretDeployment} {identifier : String} {entry : ResolvedSecret}
    (h : host.resolveRequested expected supplied identifier = .ok (.ok entry)) :
    entry.identifier = identifier := by
  simp only [resolveRequested, except_bind_ok] at h
  obtain ⟨⟨_, value, contents⟩, _, h⟩ := h
  split at h
  next =>
    have he := Except.ok.inj (Except.ok.inj h)
    rw [← he]
    rfl
  next => cases h
  next => cases h

/-- What became of each of the identifiers. -/
structure Sorted (host : TargetHost) (expected : ManifestEntries)
    (supplied : BTreeMap String SecretDeployment) (ids : List String) (entries : ResolvedBatch)
    (leftOut : BTreeMap String String) : Prop where
  leftOut : ∀ k, k ∈ leftOut ↔
    k ∈ ids ∧ ∃ reason, host.resolveRequested expected supplied k = .ok (.error reason)
  resolved : ∀ k, k ∈ entries.map ResolvedSecret.identifier ↔
    k ∈ ids ∧ ∃ entry, host.resolveRequested expected supplied k = .ok (.ok entry)
  entries : ∀ e ∈ entries, host.resolveRequested expected supplied e.identifier = .ok (.ok e)
  all : ∀ k ∈ ids, ∃ outcome, host.resolveRequested expected supplied k = .ok outcome

theorem resolveAll_sorted {expected : ManifestEntries} {supplied : BTreeMap String SecretDeployment}
    {ids : List String} {entries : ResolvedBatch} {leftOut : BTreeMap String String}
    (h : host.resolveAll expected supplied ids = .ok (entries, leftOut)) :
    Sorted host expected supplied ids entries leftOut := by
  induction ids generalizing entries leftOut with
  | nil =>
    cases h
    exact ⟨by simp, by simp, by simp, by simp⟩
  | cons identifier rest ih =>
    simp only [resolveAll, except_bind_ok] at h
    obtain ⟨outcome, houtcome, ⟨entries', leftOut'⟩, hrest, h⟩ := h
    have hs := ih hrest
    have hall : ∀ k ∈ identifier :: rest,
        ∃ outcome, host.resolveRequested expected supplied k = .ok outcome := by
      intro k hk
      rcases List.mem_cons.mp hk with rfl | hk
      · exact ⟨outcome, houtcome⟩
      · exact hs.all k hk
    cases outcome with
    | error reason =>
      cases h
      refine ⟨fun k => ?_, fun k => ?_, hs.entries, hall⟩
      · rw [Std.ExtTreeMap.mem_insert, hs.leftOut, List.mem_cons, Std.LawfulEqCmp.compare_eq_iff_eq]
        constructor
        · rintro (rfl | ⟨hk, hr⟩)
          · exact ⟨Or.inl rfl, reason, houtcome⟩
          · exact ⟨Or.inr hk, hr⟩
        · rintro ⟨rfl | hk, hr⟩
          · exact Or.inl rfl
          · exact Or.inr ⟨hk, hr⟩
      · rw [hs.resolved, List.mem_cons]
        constructor
        · exact fun ⟨hk, hr⟩ => ⟨Or.inr hk, hr⟩
        · rintro ⟨rfl | hk, entry, hr⟩
          · rw [houtcome] at hr
            cases hr
          · exact ⟨hk, entry, hr⟩
    | ok entry =>
      cases h
      have hid := resolveRequested_identifier houtcome
      refine ⟨fun k => ?_, fun k => ?_, fun e he => ?_, hall⟩
      · rw [hs.leftOut, List.mem_cons]
        constructor
        · exact fun ⟨hk, hr⟩ => ⟨Or.inr hk, hr⟩
        · rintro ⟨rfl | hk, reason, hr⟩
          · rw [houtcome] at hr
            cases hr
          · exact ⟨hk, reason, hr⟩
      · rw [List.map_cons, List.mem_cons, hs.resolved, List.mem_cons, hid]
        constructor
        · rintro (rfl | ⟨hk, hr⟩)
          · exact ⟨Or.inl rfl, entry, houtcome⟩
          · exact ⟨Or.inr hk, hr⟩
        · rintro ⟨rfl | hk, hr⟩
          · exact Or.inl rfl
          · exact Or.inr ⟨hk, hr⟩
      · rcases List.mem_cons.mp he with rfl | he
        · rw [hid]
          exact houtcome
        · exact hs.entries e he

theorem collectSupplied_mem {entries : List SecretDeployment}
    {start supplied : BTreeMap String SecretDeployment} {k : String} {value : SecretDeployment}
    (h : collectSupplied entries start = .ok supplied) (hk : supplied[k]? = some value) :
    (value ∈ entries ∧ value.identifier = k) ∨ start[k]? = some value := by
  induction entries generalizing start with
  | nil =>
    cases h
    exact Or.inr hk
  | cons entry rest ih =>
    rw [collectSupplied] at h
    split at h
    next => cases h
    next =>
      rcases ih h with ⟨hmem, hid⟩ | hstart
      · exact Or.inl ⟨List.mem_cons_of_mem _ hmem, hid⟩
      · rw [Std.ExtTreeMap.getElem?_insert] at hstart
        split at hstart
        next he =>
          cases hstart
          exact Or.inl ⟨List.mem_cons_self, Std.LawfulEqOrd.eq_of_compare he⟩
        next => exact Or.inr hstart

theorem requestedValue_ok {expected : ManifestEntries} {supplied : BTreeMap String SecretDeployment}
    {identifier : String} {entry : ManifestEntry} {value : SecretDeployment} {contents : List UInt8}
    (h : host.requestedValue expected supplied identifier = .ok (entry, value, contents)) :
    supplied[identifier]? = some value ∧
      host.checks.decodeBase64 value.contentsBase64 = some contents := by
  have hfound {α : Type} {absent : String} {x : Option α} {a : α} (hx : lookUp absent x = .ok a) :
      x = some a := by
    cases x with
    | none => cases hx
    | some b => rw [Except.ok.inj hx]
  simp only [requestedValue, except_bind_ok] at h
  obtain ⟨_, _, value', hvalue, h⟩ := h
  split at h
  next => cases h
  next =>
    rw [except_bind_ok] at h
    obtain ⟨contents', hcontents, h⟩ := h
    rw [except_bind_ok] at h
    obtain ⟨_, _, h⟩ := h
    cases h
    exact ⟨hfound hvalue, hfound hcontents⟩

/-- The host cannot accept the value that the batch supplies. -/
def Refuses (host : TargetHost) (expected : ManifestEntries)
    (supplied : BTreeMap String SecretDeployment) (identifier : String) : Prop :=
  ∃ entry value contents reason,
    host.requestedValue expected supplied identifier = .ok (entry, value, contents) ∧
    resolveContents host.checks entry contents = .error (.missing reason)

theorem refuses_iff {expected : ManifestEntries} {supplied : BTreeMap String SecretDeployment}
    {identifier : String} : host.Refuses expected supplied identifier ↔
      ∃ reason, host.resolveRequested expected supplied identifier = .ok (.error reason) := by
  constructor
  · rintro ⟨entry, value, contents, reason, hvalue, hresolve⟩
    refine ⟨reason, ?_⟩
    rw [resolveRequested, hvalue]
    simp only [bind, Except.bind, hresolve]
    rfl
  · rintro ⟨reason, h⟩
    simp only [resolveRequested, except_bind_ok] at h
    obtain ⟨⟨entry, value, contents⟩, hvalue, h⟩ := h
    split at h
    next => cases h
    next reason' hresolve => exact ⟨entry, value, contents, reason', hvalue, hresolve⟩
    next => cases h

/-- A resolved value is the one supplied under its identifier. -/
theorem resolveRequested_supplied {expected : ManifestEntries}
    {supplied : BTreeMap String SecretDeployment} {identifier : String} {entry : ResolvedSecret}
    (h : host.resolveRequested expected supplied identifier = .ok (.ok entry)) :
    ∃ value, supplied[identifier]? = some value ∧ entry.versionId = value.versionId ∧
      host.checks.decodeBase64 value.contentsBase64 = some entry.contents := by
  simp only [resolveRequested, except_bind_ok] at h
  obtain ⟨⟨_, value, contents⟩, hvalue, h⟩ := h
  obtain ⟨hsupplied, hcontents⟩ := requestedValue_ok hvalue
  split at h
  next =>
    have he := Except.ok.inj (Except.ok.inj h)
    refine ⟨value, hsupplied, ?_⟩
    rw [← he]
    exact ⟨rfl, hcontents⟩
  next => cases h
  next => cases h

theorem resolveAll_sublist {expected : ManifestEntries} {supplied : BTreeMap String SecretDeployment}
    {ids : List String} {entries : ResolvedBatch} {leftOut : BTreeMap String String}
    (h : host.resolveAll expected supplied ids = .ok (entries, leftOut)) :
    (entries.map ResolvedSecret.identifier).Sublist ids := by
  induction ids generalizing entries leftOut with
  | nil =>
    cases h
    exact List.Sublist.slnil
  | cons identifier rest ih =>
    simp only [resolveAll, except_bind_ok] at h
    obtain ⟨outcome, houtcome, ⟨entries', leftOut'⟩, hrest, h⟩ := h
    cases outcome with
    | error reason =>
      cases h
      exact (ih hrest).cons identifier
    | ok entry =>
      cases h
      rw [List.map_cons, resolveRequested_identifier houtcome]
      exact (ih hrest).cons_cons identifier

/-- No value is resolved twice. -/
theorem loadAndValidate_nodup {batch : DeploymentBatch} {entries : ResolvedBatch}
    {leftOut : BTreeMap String String}
    (h : host.loadAndValidateLeavingOut batch = .ok (entries, leftOut)) :
    (entries.map ResolvedSecret.identifier).Nodup := by
  unfold loadAndValidateLeavingOut at h
  split at h
  next => cases h
  simp only [validateManifest, except_bind_ok] at h
  obtain ⟨schema, _, h⟩ := h
  split at h
  next => cases h
  rw [except_bind_ok] at h
  obtain ⟨expected, _, h⟩ := h
  split at h
  next => cases h
  split at h
  next => cases h
  rw [except_bind_ok] at h
  obtain ⟨supplied, _, h⟩ := h
  split at h
  next => cases h
  apply (resolveAll_sublist h).nodup
  have hordered := Std.ExtTreeSet.distinct_toList
    (t := Std.ExtTreeSet.ofList batch.requestedIdentifiers compare)
  exact hordered.imp fun hne heq => hne (by rw [heq]; exact Std.ReflCmp.compare_self)

/-- A resolved value has the place that its entry in the manifest resolves to. -/
theorem resolveRequested_place {expected : ManifestEntries} {supplied : BTreeMap String SecretDeployment}
    {identifier : String} {entry : ResolvedSecret}
    (h : host.resolveRequested expected supplied identifier = .ok (.ok entry)) :
    ∃ declared spec, expected[identifier]? = some declared ∧
      expectedFromDestination host.checks declared.service declared.destination = .ok spec ∧
      entry.relative = spec.service :: spec.secretClass.directory ++ [spec.secret] := by
  simp only [resolveRequested, except_bind_ok] at h
  obtain ⟨⟨declared, value, contents⟩, hvalue, h⟩ := h
  simp only [requestedValue, except_bind_ok] at hvalue
  obtain ⟨found, hfound, _, _, hvalue⟩ := hvalue
  have hdeclared : expected[identifier]? = some found := by
    cases hx : expected[identifier]? with
    | none => rw [hx] at hfound; cases hfound
    | some other => rw [hx] at hfound; cases hfound; rfl
  split at hvalue
  next => cases hvalue
  simp only [except_bind_ok] at hvalue
  obtain ⟨_, _, _, _, hvalue⟩ := hvalue
  cases hvalue
  split at h
  next spec keyNames hresolve =>
    cases h
    simp only [resolveContents, except_bind_ok] at hresolve
    obtain ⟨spec', hspec, _, _, _, _, hresolve⟩ := hresolve
    cases hresolve
    exact ⟨declared, spec, hdeclared, hspec, rfl⟩
  next => cases h
  next => cases h

theorem loadAndValidate_sorted {batch : DeploymentBatch} {entries : ResolvedBatch}
    {leftOut : BTreeMap String String}
    (h : host.loadAndValidateLeavingOut batch = .ok (entries, leftOut)) :
    ∃ schema expected supplied, host.schema = .ok schema ∧ host.expected schema = .ok expected ∧
      collectSupplied batch.entries ∅ = .ok supplied ∧
      Sorted host expected supplied batch.requestedIdentifiers entries leftOut := by
  unfold loadAndValidateLeavingOut at h
  split at h
  next => cases h
  simp only [validateManifest, except_bind_ok] at h
  obtain ⟨schema, hschema, h⟩ := h
  split at h
  next => cases h
  rw [except_bind_ok] at h
  obtain ⟨expected, hexpected, h⟩ := h
  split at h
  next => cases h
  split at h
  next => cases h
  rw [except_bind_ok] at h
  obtain ⟨supplied, hsupplied, h⟩ := h
  split at h
  next => cases h
  have hs := resolveAll_sorted h
  have hmem (k : String) : k ∈ (Std.ExtTreeSet.ofList batch.requestedIdentifiers compare).toList ↔
      k ∈ batch.requestedIdentifiers := by
    rw [Std.ExtTreeSet.mem_toList, Std.ExtTreeSet.mem_ofList, List.contains_iff_mem]
  refine ⟨schema, expected, supplied, hschema, hexpected, hsupplied, fun k => ?_, fun k => ?_,
    hs.entries, fun k hk => hs.all k ((hmem k).mpr hk)⟩
  · rw [hs.leftOut, hmem]
  · rw [hs.resolved, hmem]

end TargetHost

end NixSecrets
