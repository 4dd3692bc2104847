import NixSecrets.DefaultLedger

namespace NixSecrets

open Faulty

/-- The default's own value stands there, with the contents recorded for it. -/
def OwnDefault (host : DefaultHost) (s : PublicState) (identifier : String) (path : List String) : Prop :=
  ∃ contents f, s.ledger.written path = some ⟨.installer, contents⟩ ∧
    s.root.node path = some (.file f) ∧ f.bytes = contents ∧
    host.installedByDefault s.root.records identifier = some (host.sha256Hex contents)

/-- A run of the installer replaces nothing but its own defaults, leaves the operator's values
alone, and does not reinstall what is up to date. -/
structure Respects (host : DefaultHost) (call : DefaultCall) (id : String) (s s' : PublicState) :
    Prop where
  replaced : s'.root.roots.settledAt .publicInfo = some id → ∀ entry, host.batchOf call = some [entry] →
    s.root.node entry.relative ≠ none → OwnDefault host s entry.identifier entry.relative
  operators : ∀ path contents, s.ledger.written path = some ⟨.operator, contents⟩ →
    s'.root.node path = s.root.node path ∧ s'.ledger.written path = some ⟨.operator, contents⟩
  upToDate : (s.root.versions host)[call.identifier]? = some call.version ∨
    (∃ entry, host.batchOf call = some [entry] ∧
      (s.root.versions host)[entry.identifier]? = some entry.versionId) →
    DefaultHost.Kept s.root s'.root

section Decide

variable {host : DefaultHost}

theorem decide_proceeds {recorded installedByDefault : Option String} {newVersion : String}
    {installed : Installed}
    (h : (DefaultDecision.decide recorded installedByDefault newVersion installed).proceeds = true) :
    (recorded = none ∧ installed = .absent) ∨ ∃ version, recorded = some version ∧
      version ≠ newVersion ∧ installedByDefault = some version ∧
      installed = .present (some version) := by
  cases recorded with
  | none =>
    cases installed with
    | absent => exact Or.inl ⟨rfl, rfl⟩
    | present digest => cases h
  | some version =>
    simp only [DefaultDecision.decide] at h
    split at h
    next => cases h
    next hne =>
      split at h
      next hown => exact Or.inr ⟨version, rfl, hne, hown⟩
      next => cases h

theorem inspectInstalled_absent {tree : Option Tree} {path : List String} :
    host.inspectInstalled tree path = .absent ↔ (tree.getD .empty).node? path = none := by
  unfold DefaultHost.inspectInstalled
  cases (tree.getD .empty).node? path with
  | none => simp
  | some node => cases node <;> simp

theorem inspectInstalled_digest {tree : Option Tree} {path : List String} {version : String}
    (h : host.inspectInstalled tree path = .present (some version)) :
    ∃ f, (tree.getD .empty).node? path = some (.file f) ∧ host.digestOf f.bytes = some version := by
  unfold DefaultHost.inspectInstalled at h
  split at h
  next => cases h
  next f hf => exact ⟨f, hf, Installed.present.inj h⟩
  next => cases h

/-- A default is installed where nothing is, or over one that was recorded. -/
theorem Installs.cases {batch : ResolvedBatch} {id : String} {s s' : PublicRoot} {entry : ResolvedSecret}
    (h : host.Installs batch id s s' entry) :
    ∃ versions, versionsOver host.platform (s.roots.settledTree .publicInfo) = .ok versions ∧
      ((versions[entry.identifier]? = none ∧ s.node entry.relative = none) ∨
      ∃ version f, versions[entry.identifier]? = some version ∧ version ≠ entry.versionId ∧
        host.installedByDefault s.records entry.identifier = some version ∧
        s.node entry.relative = some (.file f) ∧ host.digestOf f.bytes = some version) := by
  obtain ⟨decision, hdecision, hproceeds⟩ := h.decided
  simp only [DefaultHost.decisionOver, except_bind_ok] at hdecision
  obtain ⟨versions, hversions, hdecision⟩ := hdecision
  have hd := Except.ok.inj hdecision
  subst hd
  refine ⟨versions, hversions, ?_⟩
  rcases decide_proceeds hproceeds with ⟨hnone, habsent⟩ | ⟨version, hsome, hne, hrecord, hpresent⟩
  · exact Or.inl ⟨hnone, inspectInstalled_absent.mp habsent⟩
  · obtain ⟨f, hf, hdigest⟩ := inspectInstalled_digest hpresent
    exact Or.inr ⟨version, f, hsome, hne, hrecord, hf, hdigest⟩

end Decide

section Run

variable (host : DefaultHost) {x : Settled} {free : String → Prop} {s : PublicState}

/-- What a default takes the place of is the installer's own. -/
theorem installs_ownDefault {call : DefaultCall} {id : String} {root : PublicRoot}
    {entry : ResolvedSecret} (hs : s.Sound host) (hb : host.batchOf call = some [entry])
    (happart : (PublicOp.installer call id).KeepsApart host s)
    (hi : host.Installs [entry] id s.root root entry) (hold : s.root.node entry.relative ≠ none) :
    OwnDefault host s entry.identifier entry.relative := by
  obtain ⟨hplain, hhome, _⟩ := happart [entry] hb entry List.mem_cons_self
  obtain ⟨versions, hversions, ⟨_, habsent⟩ | ⟨version, f, hsome, _, hrecord, hf, hdigest⟩⟩ :=
    Installs.cases hi
  · exact absurd habsent hold
  rw [← show s.root.versions host = versions from versionsOver_eq hversions] at hsome
  have hpath : entry.relative ≠ [versionsName] := by
    intro h
    apply hplain.1
    rw [h]
    exact List.mem_cons_self
  obtain ⟨⟨writer, contents⟩, hw⟩ := Option.ne_none_iff_exists'.mp (hs.known _ f hpath hf)
  obtain ⟨_, g, hg, hbytes⟩ := hs.there _ _ hw
  have hfile : g = f := by
    have he := Option.some.inj (hg.symm.trans hf)
    exact Node.file.inj he
  subst hfile
  cases writer with
  | operator =>
    have happ := hs.apart _ contents hw entry.identifier version (hhome version hsome) hrecord hsome
    rw [← show g.bytes = contents from hbytes] at happ
    exact absurd hdigest happ
  | installer =>
    refine ⟨contents, g, hw, hg, hbytes, ?_⟩
    rw [hrecord, ← hdigest, ← show g.bytes = contents from hbytes]
    unfold DefaultHost.digestOf at hdigest ⊢
    split at hdigest
    next => cases hdigest
    next hsize => rw [if_neg hsize]

theorem run_respects {call : DefaultCall} {id : String} (faults : List Fault) (hs : s.Sound host)
    (hw : s.root.roots.Steady x free) (hv : validGeneration id = true) (hid : free id)
    (happart : (PublicOp.installer call id).KeepsApart host s) :
    Respects host call id s ((⟨.installer call id, faults⟩ : PublicAttempt).run host s) := by
  obtain ⟨root, _, ⟨hk, h⟩ | ⟨entry, hb, hi, hl, hstale, h⟩⟩ := run_installer host call id faults hw hv hid
  · rw [h]
    refine ⟨fun hat => ?_, fun path contents hwritten => ⟨?_, hwritten⟩, fun _ => hk⟩
    · exact absurd (hk.1.1.symm.trans hat) (settledAt_ne_free hw hid)
    · simp only [PublicRoot.node, hk.1.2]
  rw [h]
  have hown (hold : s.root.node entry.relative ≠ none) := installs_ownDefault host hs hb happart hi hold
  refine ⟨fun _ other hother hold => ?_, fun path contents hwritten => ?_, fun hup => ?_⟩
  · have he : other = entry := by
      have hlist := Option.some.inj (hother.symm.trans hb)
      exact (List.cons.inj hlist).1
    subst he
    exact hown hold
  · obtain ⟨hn, f, hf, _⟩ := hs.there path _ hwritten
    have hne : entry.relative ≠ path := by
      rintro rfl
      obtain ⟨other, _, hother, _⟩ := hown (by rw [hf]; simp)
      rw [hwritten] at hother
      cases hother
    have hpath : path ∉ [entry].map ResolvedSecret.relative := by simpa using hne.symm
    refine ⟨hl.kept path hn hpath (by rw [hf]; simp), ?_⟩
    have hlast := ResolvedBatch.lastAt_none.mpr hpath
    simp only [Ledger.lay, hlast]
    exact hwritten
  · exfalso
    obtain ⟨versions, hversions, hcases⟩ := Installs.cases hi
    have he : s.root.versions host = versions := versionsOver_eq hversions
    rw [he] at hup
    rcases hup with hup | ⟨other, hother, hup⟩
    · exact hstale versions hversions hup
    · have hlist := Option.some.inj (hother.symm.trans hb)
      rw [(List.cons.inj hlist).1] at hup
      rcases hcases with ⟨hnone, _⟩ | ⟨version, _, hsome, hne, _⟩
      · rw [hnone] at hup
        cases hup
      · rw [hsome] at hup
        exact hne (Option.some.inj hup)

/-- A value of the operator's that the call does not deploy anew stays as it is. -/
theorem run_stays {a : PublicAttempt} {path : List String} {contents : List UInt8} (hs : s.Sound host)
    (hw : s.root.roots.Steady x free)
    (hid : ∀ id, a.op.id? = some id → validGeneration id = true ∧ free id)
    (happart : a.op.KeepsApart host s)
    (hwritten : s.ledger.written path = some ⟨.operator, contents⟩)
    (hother : ∀ op batch, a.op = .operator op → op.publicBatch = some batch →
      path ∉ batch.map ResolvedSecret.relative) :
    (a.run host s).root.node path = s.root.node path ∧
      (a.run host s).ledger.written path = some ⟨.operator, contents⟩ := by
  obtain ⟨op, faults⟩ := a
  cases op with
  | installer call id =>
    obtain ⟨hv, hfree⟩ := hid id rfl
    exact (run_respects host faults hs hw hv hfree happart).operators path contents hwritten
  | operator op =>
    obtain ⟨root, ⟨hk, h⟩ | ⟨batch, hb, hl, _, h⟩⟩ := run_operator host op faults hw hid
    · rw [h]
      refine ⟨?_, hwritten⟩
      simp only [PublicRoot.node, hk.1.2]
    · rw [h]
      have hpath := hother op batch rfl hb
      obtain ⟨hn, f, hf, _⟩ := hs.there path _ hwritten
      refine ⟨hl.kept path hn hpath (by rw [hf]; simp), ?_⟩
      have hlast := ResolvedBatch.lastAt_none.mpr hpath
      simp only [Ledger.lay, hlast]
      exact hwritten

theorem sound_empty : PublicState.Sound host {} := by
  refine ⟨fun _ _ h => (by cases h), fun path f _ h => ?_, fun _ _ h => (by cases h)⟩
  have hnone : ({} : PublicRoot).node path = none := Listing.node?_empty path
  rw [hnone] at h
  cases h

theorem publicIds_append (before after : List PublicAttempt) :
    publicIds (before ++ after) = publicIds before ++ publicIds after := List.filterMap_append

theorem publicIds_cons (a : PublicAttempt) (after : List PublicAttempt) :
    publicIds (a :: after) = a.op.id?.toList ++ publicIds after := by
  unfold publicIds
  cases h : a.op.id? <;> simp [h]

theorem FreshPublicIds.next {before after : List PublicAttempt} {a : PublicAttempt}
    (h : FreshPublicIds (before ++ a :: after)) (id : String) (he : a.op.id? = some id) :
    validGeneration id = true ∧ id ∉ publicIds before := by
  obtain ⟨hn, hv⟩ := h
  rw [publicIds_append, publicIds_cons, he] at hn hv
  refine ⟨hv id (by simp), fun hm => ?_⟩
  exact (List.nodup_append.mp hn).2.2 id hm id (by simp) rfl

theorem runPublic_snoc (before : List PublicAttempt) (a : PublicAttempt) (s : PublicState) :
    runPublic host (before ++ [a]) s = a.run host (runPublic host before s) := by
  simp [runPublic]

/-- Every call of the run keeps the operator's values and the defaults apart. -/
def KeptApart (attempts : List PublicAttempt) : Prop :=
  ∀ before a after, attempts = before ++ a :: after → a.op.KeepsApart host (runPublic host before {})

theorem runPublic_sound {attempts : List PublicAttempt} (hf : FreshPublicIds attempts)
    (happart : KeptApart host attempts) (before after : List PublicAttempt)
    (h : attempts = before ++ after) : (runPublic host before {}).Sound host ∧
      ∃ x, (runPublic host before {}).root.roots.Steady x fun k => k ∉ publicIds before := by
  induction before using List.reverseRecOn generalizing after with
  | nil =>
    refine ⟨sound_empty host, (none, none), ?_⟩
    exact Roots.Steady.mono steady_empty fun _ _ => trivial
  | append_singleton before a ih =>
    rw [List.append_assoc, List.singleton_append] at h
    obtain ⟨hs, x, hw⟩ := ih (a :: after) h
    have hid (id : String) (he : a.op.id? = some id) :
        validGeneration id = true ∧ id ∉ publicIds before := FreshPublicIds.next (h ▸ hf) id he
    rw [runPublic_snoc]
    refine ⟨run_sound host a hs hw hid (happart before a after h), ?_⟩
    obtain ⟨y, hy⟩ := run_steady host a hw hid
    refine ⟨y, hy.mono fun k hk => ?_⟩
    rw [publicIds_append, publicIds_cons] at hk
    refine ⟨fun hm => hk (List.mem_append_left _ hm), fun he => hk ?_⟩
    rw [he]
    simp

theorem runPublic_stays {attempts : List PublicAttempt} (hf : FreshPublicIds attempts)
    (happart : KeptApart host attempts) {path : List String} {contents : List UInt8}
    (before middle after : List PublicAttempt) (h : attempts = before ++ middle ++ after)
    (hwritten : (runPublic host before {}).ledger.written path = some ⟨.operator, contents⟩)
    (hother : ∀ a ∈ middle, ∀ op batch, a.op = .operator op → op.publicBatch = some batch →
      path ∉ batch.map ResolvedSecret.relative) :
    (runPublic host (before ++ middle) {}).root.node path = (runPublic host before {}).root.node path ∧
      (runPublic host (before ++ middle) {}).ledger.written path = some ⟨.operator, contents⟩ := by
  induction middle using List.reverseRecOn generalizing after with
  | nil =>
    rw [List.append_nil]
    exact ⟨rfl, hwritten⟩
  | append_singleton middle a ih =>
    have hsplit : attempts = before ++ middle ++ a :: after := by
      rw [h, ← List.append_assoc, List.append_assoc (before ++ middle), List.singleton_append]
    obtain ⟨hnode, hstill⟩ := ih (a :: after) hsplit
      fun b hb => hother b (List.mem_append_left _ hb)
    obtain ⟨hs, x, hw⟩ := runPublic_sound host hf happart (before ++ middle) (a :: after) hsplit
    have hid (id : String) (he : a.op.id? = some id) :
        validGeneration id = true ∧ id ∉ publicIds (before ++ middle) :=
      FreshPublicIds.next (hsplit ▸ hf) id he
    have hstep := run_stays host hs hw hid (happart (before ++ middle) a after hsplit) hstill
      (hother a (by simp))
    rw [← List.append_assoc, runPublic_snoc, hstep.1]
    exact ⟨hnode, hstep.2⟩

end Run

/-- Over any run that keeps the operator's values and the defaults apart, the installer
replaces nothing but defaults it installed and that are still as recorded, does not reinstall
what is up to date, and a value the operator deployed stays until the operator deploys
another. -/
theorem default_keeps_operator_values (host : DefaultHost) {attempts : List PublicAttempt}
    (hf : FreshPublicIds attempts) (happart : KeptApart host attempts) :
    (∀ before call id faults after,
      attempts = before ++ ⟨.installer call id, faults⟩ :: after →
      Respects host call id (runPublic host before {})
        (runPublic host (before ++ [⟨.installer call id, faults⟩]) {})) ∧
    ∀ before middle after, attempts = before ++ middle ++ after →
      ∀ path contents, (runPublic host before {}).ledger.written path = some ⟨.operator, contents⟩ →
      (∀ a ∈ middle, ∀ op batch, a.op = .operator op → op.publicBatch = some batch →
        path ∉ batch.map ResolvedSecret.relative) →
      (runPublic host (before ++ middle) {}).root.node path =
        (runPublic host before {}).root.node path := by
  refine ⟨fun before call id faults after h => ?_, fun before middle after h path contents hw ho => ?_⟩
  · obtain ⟨hs, x, hw⟩ := runPublic_sound host hf happart before _ h
    obtain ⟨hv, hfree⟩ := FreshPublicIds.next (h ▸ hf) id rfl
    rw [runPublic_snoc]
    exact run_respects host faults hs hw hv hfree (happart before _ after h)
  · exact (runPublic_stays host hf happart before middle after h hw ho).1

def reportKey : List UInt8 :=
  [115, 115, 104, 45, 101, 100, 50, 53, 53, 49, 57, 32, 65, 65, 65, 65, 67, 51, 78, 122, 97, 67,
    49, 108, 90, 68, 73, 49, 78, 84, 69, 53, 65, 65, 65, 65, 73, 65, 65, 66, 65, 103, 77, 69, 66,
    81, 89, 72, 67, 65, 107, 75, 67, 119, 119, 78, 68, 103, 56, 81, 69, 82, 73, 84, 70, 66, 85, 87,
    70, 120, 103, 90, 71, 104, 115, 99, 72, 82, 52, 102, 10]

/-- The key under `a.b`, and then under `[a.b]:2222`. -/
def firstDefault : List UInt8 := [97, 46, 98, 32] ++ reportKey

def secondDefault : List UInt8 := [91, 97, 46, 98, 93, 58, 50, 50, 50, 50, 32] ++ reportKey

def reportIdentifier : String := "host.services.ssh.hosts"

/-- The digests of the two defaults, and of the identifier. -/
def reportSha256 (bytes : List UInt8) : List UInt8 :=
  if bytes = firstDefault then
    [154, 160, 184, 72, 117, 49, 248, 112, 196, 59, 83, 95, 232, 112, 14, 252, 51, 247, 149, 119,
      114, 56, 235, 195, 184, 227, 78, 216, 26, 5, 251, 78]
  else if bytes = secondDefault then
    [89, 221, 106, 180, 69, 113, 236, 154, 87, 52, 151, 76, 72, 53, 119, 4, 144, 29, 233, 44, 167,
      141, 22, 25, 76, 241, 21, 73, 45, 110, 198, 210]
  else
    [218, 221, 164, 169, 28, 111, 58, 4, 100, 236, 28, 200, 215, 70, 135, 31, 202, 13, 158, 102,
      48, 143, 218, 93, 231, 180, 30, 194, 133, 242, 178, 144]

def reportHost : DefaultHost := ⟨receiver, reportSha256⟩

def reportLeaf (port : UInt16) : SecretLeaf where
  destination := ⟨"/persistent/public-info/ssh/hosts", "public-info", "root", "root",
    "0644", some "ssh-known-hosts", none⟩
  sharedPublicId := some "ssh/hosts"
  expectedSshHost := some "a.b"
  expectedSshPort := some port

def reportTarget (port : UInt16) : TargetHost where
  hostname := "host"
  manifest := "/etc/nix-secrets/manifest.json"
  schema := .ok ((∅ : Schema).insert "host"
    [("services", [("ssh", .branch [("hosts", .secret (reportLeaf port))])])])
  checks :=
    { user := fun name => .ok (if name = "root" then some 0 else none)
      group := fun name => .ok (if name = "root" then some 0 else none)
      decodeBase64 := fun text => some (if text.utf8ByteSize = 116 then firstDefault else secondDefault)
      sshKnownHosts := fun _ _ _ => .ok ()
      namedSshKeys := fun _ => .ok ()
      privateKey := fun _ => some false
      publicKey := fun _ => true }

def reportCall (port : UInt16) (value : List UInt8) : DefaultCall where
  target := reportTarget port
  identifier := reportIdentifier
  version := reportHost.sha256Hex value
  path := .ok ["host", "services", "ssh", "hosts"]
  leaf := .ok ⟨true, true, ["a.b"], some port, none⟩
  source := .ok ⟨true, value⟩

/-- The operator's value: the first default, under the version it has. -/
def redeployedDefault : ResolvedSecret :=
  ⟨reportIdentifier, reportHost.sha256Hex firstDefault, "ssh", .publicInfo, "hosts",
    firstDefault, 0, 0, 0o644, none, []⟩

def thirdId : String := generationId 3 1

/-- A value of the operator's for the same destination. -/
def operatorValue : ResolvedSecret := { redeployedDefault with versionId := "v1", contents := [104] }

def deployedByOperator : PublicAttempt :=
  ⟨.operator (.together none (some [operatorValue]) firstId), []⟩

def installedAfter : PublicAttempt := ⟨.installer (reportCall 22 firstDefault) secondId, []⟩

theorem report_batch : reportHost.batchOf (reportCall 22 firstDefault) = some [redeployedDefault] := by
  decide +kernel

theorem deployedByOperator_settled : (deployedByOperator.op.perform reportHost
    deployedByOperator.faults (PublicState.root {})).2.2.roots.settledAt .publicInfo = some firstId := by
  decide +kernel

theorem deployedByOperator_ledger : (runPublic reportHost [deployedByOperator] {}).ledger =
    ({} : Ledger).lay .operator [operatorValue] := by
  have hrun := run_laid reportHost (a := deployedByOperator) rfl rfl deployedByOperator_settled
  exact congrArg PublicState.ledger hrun

theorem operatorValue_apart : KeptApart reportHost [deployedByOperator, installedAfter] := by
  have hplain (e : ResolvedSecret) (he : e = operatorValue ∨ e = redeployedDefault) : e.Plain := by
    rcases he with rfl | rfl
    · exact ⟨by decide, by decide⟩
    · exact ⟨by decide, by decide⟩
  intro before a after h
  match before, h with
  | [], h =>
    obtain ⟨rfl, _⟩ := List.cons.inj h
    intro batch hb e he
    cases hb
    rw [List.mem_singleton] at he
    refine ⟨hplain e (Or.inl he), fun identifier version _ hrecord => ?_⟩
    cases hrecord
  | [b], h =>
    simp only [List.cons_append, List.nil_append, List.cons.injEq] at h
    obtain ⟨rfl, rfl, _⟩ := h
    intro batch hb e he
    have hbatch := Option.some.inj (hb.symm.trans report_batch)
    subst hbatch
    rw [List.mem_singleton] at he
    subst he
    refine ⟨hplain _ (Or.inr rfl), fun version _ => ?_, fun identifier hhome _ => ?_⟩
    · rw [deployedByOperator_ledger]
      rfl
    · rw [deployedByOperator_ledger] at hhome
      by_contra hne
      apply hhome
      have hlast : ResolvedBatch.lastOf [operatorValue] identifier = none := by
        simpa [ResolvedBatch.lastOf, operatorValue] using fun he => hne he.symm
      simp only [Ledger.lay, hlast]
      rfl
  | _ :: _ :: rest, h => simp at h

theorem operatorValue_stays :
    (runPublic reportHost [deployedByOperator, installedAfter] {}).root.node operatorValue.relative =
      (runPublic reportHost [deployedByOperator] {}).root.node operatorValue.relative := by
  have hfresh : FreshPublicIds [deployedByOperator, installedAfter] := by
    constructor <;> decide +kernel
  have hwritten : (runPublic reportHost [deployedByOperator] {}).ledger.written operatorValue.relative =
      some ⟨.operator, [104]⟩ := by
    rw [deployedByOperator_ledger]
    rfl
  have hstays := (default_keeps_operator_values reportHost hfresh operatorValue_apart).2
    [deployedByOperator] [installedAfter] [] rfl operatorValue.relative [104] hwritten
  have hother (a : PublicAttempt) (ha : a ∈ [installedAfter]) (op : DeployOp) (batch : ResolvedBatch)
      (hop : a.op = .operator op) : op.publicBatch = some batch →
      operatorValue.relative ∉ batch.map ResolvedSecret.relative := by
    rw [List.mem_singleton.mp ha] at hop
    cases hop
  exact hstays hother

/-- The first default under `ssh`, with the versions beside it. -/
def reportTree : Tree :=
  .dir "ssh" ⟨0, 0, 0o711, none⟩
    (.file "hosts" ⟨firstDefault, 0, 0, 0o644, none⟩ .empty)
    (versionsFile ("\x7b\"" ++ reportIdentifier ++ "\":\"" ++ reportHost.sha256Hex firstDefault ++ "\"\x7d"))

def reportRoot (id : String) (generations : BTreeMap String Generation) : Root where
  present := true
  current := some (.generation id)
  services := (∅ : BTreeMap String Target).insert "ssh" (.service "ssh")
  store := true
  generations := generations.insert id { tree := reportTree }

def reportRecords : BTreeMap String (List UInt8) :=
  (∅ : BTreeMap String (List UInt8)).insert (reportHost.recordName reportIdentifier)
    (utf8Bytes (reportHost.sha256Hex firstDefault).toList)

/-- The roots once the first default is installed, and once the operator has deployed it. -/
def installedRoots : PublicRoot := ⟨⟨{}, reportRoot firstId ∅⟩, reportRecords⟩

def redeployedRoots : PublicRoot :=
  ⟨⟨{ present := true }, reportRoot secondId (reportRoot firstId ∅).generations⟩, reportRecords⟩

def firstInstalled : PublicAttempt := ⟨.installer (reportCall 22 firstDefault) firstId, []⟩

def redeployedByOperator : PublicAttempt :=
  ⟨.operator (.together none (some [redeployedDefault]) secondId), []⟩

def replacedLater : PublicAttempt := ⟨.installer (reportCall 2222 secondDefault) thirdId, []⟩

/-- The roots after each of the two deployments; the third replaces the value. -/
theorem reported_roots :
    (firstInstalled.op.perform reportHost firstInstalled.faults (PublicState.root {})).2.2 = installedRoots ∧
    (redeployedByOperator.op.perform reportHost redeployedByOperator.faults installedRoots).2.2 =
      redeployedRoots ∧
    ((PublicOp.installer (reportCall 2222 secondDefault) thirdId).perform reportHost []
      redeployedRoots).2.2.node redeployedDefault.relative ≠ redeployedRoots.node redeployedDefault.relative := by
  refine ⟨?_, ?_, ?_⟩
  · decide +kernel
  · decide +kernel
  · decide +kernel

theorem redeployed_run : runPublic reportHost [firstInstalled, redeployedByOperator] {} =
    ⟨redeployedRoots, (firstInstalled.run reportHost {}).ledger.lay .operator [redeployedDefault]⟩ := by
  have hroot : (firstInstalled.run reportHost {}).root = installedRoots := by
    rw [run_root, reported_roots.1]
  have hat : (redeployedByOperator.op.perform reportHost redeployedByOperator.faults
      (firstInstalled.run reportHost {}).root).2.2.roots.settledAt .publicInfo = some secondId := by
    rw [hroot, reported_roots.2.1]
    decide +kernel
  have hrun := run_laid reportHost (a := redeployedByOperator) rfl rfl hat
  rw [hroot, reported_roots.2.1] at hrun
  exact hrun

theorem redeployed_written :
    (runPublic reportHost [firstInstalled, redeployedByOperator] {}).ledger.written
      redeployedDefault.relative = some ⟨.operator, firstDefault⟩ := by
  rw [redeployed_run]
  have hlast : ResolvedBatch.lastAt [redeployedDefault] redeployedDefault.relative =
      some redeployedDefault := by simp [ResolvedBatch.lastAt]
  simp only [Ledger.lay, hlast]
  rfl

/-- The operator deploys the installed default again, under its version: the next default
replaces the operator's value. -/
theorem redeployed_default_replaced : ¬ ∀ (host : DefaultHost) (attempts : List PublicAttempt),
    FreshPublicIds attempts → ∀ before call id faults after,
      attempts = before ++ ⟨.installer call id, faults⟩ :: after →
      Respects host call id (runPublic host before {})
        (runPublic host (before ++ [⟨.installer call id, faults⟩]) {}) := by
  intro h
  have hfresh : FreshPublicIds ([firstInstalled, redeployedByOperator] ++ [replacedLater]) := by
    constructor <;> decide +kernel
  have hrespects := h reportHost _ hfresh [firstInstalled, redeployedByOperator]
    (reportCall 2222 secondDefault) thirdId [] [] rfl
  have hkept := (hrespects.operators _ _ redeployed_written).1
  rw [runPublic_snoc, redeployed_run, run_root] at hkept
  dsimp only at hkept
  exact reported_roots.2.2 hkept

end NixSecrets
