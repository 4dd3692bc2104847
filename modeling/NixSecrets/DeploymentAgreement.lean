import NixSecrets.DeploymentClient
import NixSecrets.ServerSafety

namespace NixSecrets.Transport

/-- The target declares the value with the same recipients, destination, attestation and derivation. -/
def DeclaredSecret (state : TargetState) (item : ExpectedSecret) : Prop :=
  ∃ declared ∈ state.secrets, declared.identifier = item.identifier ∧
    declared.recipientIds = item.recipientIds ∧ declared.destination = item.destination ∧
    declared.publicInfo = item.publicInfo ∧ declared.derived = item.derived

def DeclaredTask (state : TargetState) (item : ExpectedTask) : Prop :=
  ∃ declared ∈ state.tasks, declared.identifier = item.identifier ∧
    declared.taskType = item.taskType ∧ declared.recipientIds = item.recipientIds ∧
    declared.output = item.output ∧ declared.bootstrap = item.bootstrap

theorem declaredSecret_iff {state : TargetState} {item : ExpectedSecret} :
    DeclaredSecret state item ↔
      ∃ declared ∈ state.secrets, (declared.identifier, declared.spec) = (item.identifier, item.spec) := by
  simp only [DeclaredSecret, TargetSecret.spec, ExpectedSecret.spec, Prod.mk.injEq]

theorem declaredTask_iff {state : TargetState} {item : ExpectedTask} :
    DeclaredTask state item ↔
      ∃ declared ∈ state.tasks, (declared.identifier, declared.spec) = (item.identifier, item.spec) := by
  simp only [DeclaredTask, TargetTask.spec, ExpectedTask.spec, Prod.mk.injEq]

/-- What a successful comparison has found. -/
structure Compared (state : TargetState) (expected : ExpectedTarget) (leftOut : List LeftOut) : Prop where
  notOlder : legacyDeploymentProtocolVersion ≤ state.protocolVersion
  notNewer : state.protocolVersion ≤ deploymentProtocolVersion
  secrets : Distinct (expected.secrets.map (·.identifier))
  tasks : Distinct (expected.tasks.map (·.identifier))
  leftOut : ∀ k, k ∈ leftOut.map (·.identifier) ↔
    (∃ item ∈ expected.secrets, item.identifier = k ∧ ¬ DeclaredSecret state item) ∨
    ∃ item ∈ expected.tasks, item.identifier = k ∧ ¬ DeclaredTask state item

/-- The comparison of one kind of declarations, in terms of the items themselves. -/
theorem compareAll_items {τ τ' ν : Type} {difference : ν → ν → String} {have' : τ → String × ν}
    {want' : τ' → String × ν} {declared : List τ} {items : List τ'} {target wanted : BTreeMap String ν}
    {absent : List String} {leftOut : List LeftOut} (hdifference : ∀ x y, difference x y = "" ↔ x = y)
    (htarget : mapUnique have' declared = .ok target) (hwanted : mapUnique want' items = .ok wanted)
    (h : compareAll difference target absent wanted.toList = .ok leftOut) (k : String) :
    k ∈ leftOut.map (·.identifier) ↔
      ∃ item ∈ items, (want' item).1 = k ∧ ¬ ∃ found ∈ declared, have' found = want' item := by
  rw [compareAll_ok hdifference h]
  have hfound := (mapUnique_ok htarget).2
  have hexpected := (mapUnique_ok hwanted).2
  constructor
  · rintro ⟨want, hmem, hwant⟩
    rw [Std.ExtTreeMap.mem_toList_iff_getElem?_eq_some, hexpected] at hmem
    obtain ⟨item, hitem, hpair⟩ := hmem
    refine ⟨item, hitem, by rw [hpair], ?_⟩
    rw [ne_eq, hfound] at hwant
    rw [hpair]
    exact hwant
  · rintro ⟨item, hitem, rfl, hnot⟩
    refine ⟨(want' item).2, ?_, ?_⟩
    · rw [Std.ExtTreeMap.mem_toList_iff_getElem?_eq_some, hexpected]
      exact ⟨item, hitem, rfl⟩
    · rw [ne_eq, hfound]
      exact hnot

theorem compareTarget_ok {libs : Libraries} {state : TargetState} {expected : ExpectedTarget}
    {leftOut : List LeftOut} (h : compareTarget libs state expected = .ok leftOut) :
    Compared state expected leftOut := by
  simp only [compareTarget, mapTargetTasks, mapExpectedTasks, except_bind_ok, exists_unit_ok, rejectIf_ok,
    not_not] at h
  obtain ⟨⟨holder, hnewer⟩, _, targetSecrets, htargetSecrets, expectedSecrets, hexpectedSecrets, secrets,
    hsecrets, targetTasks, ⟨_, htargetTasks⟩, expectedTasks, ⟨_, hexpectedTasks⟩, tasks, htasks, _, h⟩ := h
  cases h
  refine ⟨holder, hnewer, (mapUnique_ok hexpectedSecrets).1, (mapUnique_ok hexpectedTasks).1, fun k => ?_⟩
  rw [List.map_append, List.mem_append,
    compareAll_items (fun _ _ => secretDifference_eq_empty libs) htargetSecrets hexpectedSecrets hsecrets,
    compareAll_items (fun _ _ => taskDifference_eq_empty libs) htargetTasks hexpectedTasks htasks]
  simp only [declaredSecret_iff, declaredTask_iff]

/-- The values that are not left out. -/
def keptSecrets (expected : ExpectedTarget) (leftOut : List LeftOut) : List String :=
  (expected.secrets.map (·.identifier)).filter (· ∉ leftOut.map (·.identifier))

def keptTasks (expected : ExpectedTarget) (leftOut : List LeftOut) : List String :=
  (expected.tasks.map (·.identifier)).filter (· ∉ leftOut.map (·.identifier))

theorem mem_keptSecrets {expected : ExpectedTarget} {leftOut : List LeftOut} {k : String} :
    k ∈ keptSecrets expected leftOut ↔
      k ∈ expected.secrets.map (·.identifier) ∧ k ∉ leftOut.map (·.identifier) := by
  rw [keptSecrets, List.mem_filter, decide_eq_true_iff]

theorem mem_keptTasks {expected : ExpectedTarget} {leftOut : List LeftOut} {k : String} :
    k ∈ keptTasks expected leftOut ↔
      k ∈ expected.tasks.map (·.identifier) ∧ k ∉ leftOut.map (·.identifier) := by
  rw [keptTasks, List.mem_filter, decide_eq_true_iff]

/-- The items are for the kept identifiers, for all of them and for no other. -/
structure ForKept (expected : ExpectedTarget) (leftOut : List LeftOut) (batch : WireBatch) : Prop where
  values : ∀ k, k ∈ batch.requestedIdentifiers ↔ k ∈ keptSecrets expected leftOut
  tasks : ∀ k, k ∈ batch.requestedTasks ↔ k ∈ keptTasks expected leftOut

namespace Compared

variable {state : TargetState} {expected : ExpectedTarget} {leftOut : List LeftOut}

theorem expected_of_leftOut (h : Compared state expected leftOut) {k : String}
    (hk : k ∈ leftOut.map (·.identifier)) : k ∈ expectedIdentifiers expected := by
  rw [expectedIdentifiers, List.mem_append]
  rcases (h.leftOut k).mp hk with ⟨item, hitem, rfl, _⟩ | ⟨item, hitem, rfl, _⟩
  · exact Or.inl (List.mem_map_of_mem hitem)
  · exact Or.inr (List.mem_map_of_mem hitem)

theorem declaredSecret (h : Compared state expected leftOut) {item : ExpectedSecret}
    (hitem : item ∈ expected.secrets) (hkept : item.identifier ∉ leftOut.map (·.identifier)) :
    DeclaredSecret state item := by
  by_contra hnot
  exact hkept ((h.leftOut _).mpr (Or.inl ⟨item, hitem, rfl, hnot⟩))

theorem declaredTask (h : Compared state expected leftOut) {item : ExpectedTask}
    (hitem : item ∈ expected.tasks) (hkept : item.identifier ∉ leftOut.map (·.identifier)) :
    DeclaredTask state item := by
  by_contra hnot
  exact hkept ((h.leftOut _).mpr (Or.inr ⟨item, hitem, rfl, hnot⟩))

theorem kept_declared (h : Compared state expected leftOut) {k : String}
    (hk : k ∈ keptSecrets expected leftOut) : k ∈ state.secrets.map (·.identifier) := by
  obtain ⟨hexpected, hkept⟩ := mem_keptSecrets.mp hk
  obtain ⟨item, hitem, rfl⟩ := List.mem_map.mp hexpected
  obtain ⟨declared, hdeclared, hsame, _⟩ := h.declaredSecret hitem hkept
  rw [← hsame]
  exact List.mem_map_of_mem hdeclared

theorem kept_declaredTask (h : Compared state expected leftOut) {k : String}
    (hk : k ∈ keptTasks expected leftOut) : k ∈ state.tasks.map (·.identifier) := by
  obtain ⟨hexpected, hkept⟩ := mem_keptTasks.mp hk
  obtain ⟨item, hitem, rfl⟩ := List.mem_map.mp hexpected
  obtain ⟨declared, hdeclared, hsame, _⟩ := h.declaredTask hitem hkept
  rw [← hsame]
  exact List.mem_map_of_mem hdeclared

end Compared

theorem validateSelection_ok {selection : DeploymentSelection} :
    validateSelection selection = .ok () ↔
      ¬ (selection.identifiers = [] ∧ selection.taskIdentifiers = []) ∧
      Distinct selection.identifiers ∧ Distinct selection.taskIdentifiers := by
  simp only [validateSelection, except_bind_ok, exists_unit_ok, rejectIf_ok, uniqueIdentifiers_ok]
  constructor
  · rintro ⟨hsome, _, ⟨hvalues, _⟩, _, ⟨htasks, _⟩, _⟩
    exact ⟨hsome, hvalues, htasks⟩
  · rintro ⟨hsome, hvalues, htasks⟩
    exact ⟨hsome, _, ⟨hvalues, rfl⟩, _, ⟨htasks, rfl⟩, rfl⟩

theorem requireWhole_ok {libs : Libraries} {expected : ExpectedTarget} {state : TargetState}
    {leftOut : List LeftOut} (h : compareTarget libs state expected = .ok leftOut) :
    requireWhole libs expected state = .ok () ↔
      (state.protocolVersion < notDeployedProtocolVersion → leftOut = []) := by
  unfold requireWhole
  split
  next hold =>
    simp only [validateTarget, h, hold, true_implies]
    cases leftOut with
    | nil => exact iff_of_true rfl rfl
    | cons first rest => exact iff_of_false nofun nofun
  next hnew => exact iff_of_true rfl fun hold => absurd hold hnew

/-- The client goes on with every target it compared, but for an empty selection and for a target
of an older protocol that leaves something out. -/
theorem openDeployment_ok {libs : Libraries} {expected : ExpectedTarget} {state : TargetState}
    {leftOut : List LeftOut} (h : compareTarget libs state expected = .ok leftOut) :
    openDeployment libs expected state = .ok leftOut ↔ expectedIdentifiers expected ≠ [] ∧
      (state.protocolVersion < notDeployedProtocolVersion → leftOut = []) := by
  have hcompared := compareTarget_ok h
  have hvalues : Distinct (selection expected).identifiers := hcompared.secrets
  have htasks : Distinct (selection expected).taskIdentifiers := hcompared.tasks
  have hempty : (selection expected).identifiers = [] ∧ (selection expected).taskIdentifiers = [] ↔
      expectedIdentifiers expected = [] := List.append_eq_nil_iff.symm
  simp only [openDeployment, except_bind_ok, exists_unit_ok, validateSelection_ok, hempty]
  constructor
  · rintro ⟨⟨hsome, _⟩, leftOut', h', hwhole, hsame⟩
    cases hsame
    exact ⟨hsome, (requireWhole_ok h').mp hwhole⟩
  · rintro ⟨hsome, hwhole⟩
    exact ⟨⟨hsome, hvalues, htasks⟩, leftOut, h, (requireWhole_ok h).mpr hwhole, rfl⟩

theorem checkSubset_of {version : UInt16} {left right : List String} {message : String}
    (hsubset : ∀ k ∈ right, k ∈ left) (honce : right.Nodup)
    (hwhole : version < notDeployedProtocolVersion → ∀ k ∈ left, k ∈ right) :
    checkSubset version left right message = .ok () := by
  unfold checkSubset
  split
  next =>
    rw [requireSubset, rejectIf_ok, not_not]
    exact ⟨hsubset, honce⟩
  next hold =>
    rw [requireSameSet, rejectIf_ok, not_not]
    have hwhole := hwhole (UInt16.not_le.mp hold)
    intro k hk
    rcases List.mem_append.mp hk with hk | hk
    · exact ⟨hk, hwhole k hk⟩
    · exact ⟨hsubset k hk, hk⟩

theorem find_select {τ : Type} {identifier : τ → String} {available : List τ} {identifiers : List String}
    {k : String} (hk : k ∈ identifiers) :
    (select identifier available identifiers).find? (identifier · = k) =
      available.find? (identifier · = k) := by
  rw [select, List.find?_filter]
  congr 1
  funext item
  by_cases hitem : identifier item = k
  · simp [hitem, hk]
  · simp [hitem]

theorem mem_select {τ : Type} {identifier : τ → String} {available : List τ} {identifiers : List String}
    {k : String} (hk : k ∈ identifiers) (h : k ∈ available.map identifier) :
    k ∈ (select identifier available identifiers).map identifier := by
  obtain ⟨item, hitem, rfl⟩ := List.mem_map.mp h
  exact List.mem_map_of_mem (List.mem_filter.mpr ⟨hitem, decide_eq_true hk⟩)

theorem isLocalKey_select {available : List TargetTask} {identifiers : List String} {entry : TaskEntry}
    (hk : entry.identifier ∈ identifiers) :
    isLocalKey (select (·.identifier) available identifiers) entry = isLocalKey available entry := by
  rw [isLocalKey, isLocalKey, select, List.any_filter]
  congr 1
  funext task
  by_cases htask : task.identifier = entry.identifier
  · simp [htask, hk]
  · simp [htask]

/-- A batch that is allowed by a state is allowed by the part of it that a selection with everything
the batch requests keeps. -/
theorem BatchAllowed.select {libs : Libraries} {batch : WireBatch} {state selected : TargetState}
    {selection : DeploymentSelection} (h : BatchAllowed libs batch state)
    (hselected : selectState state selection = .ok selected)
    (hvalues : ∀ k ∈ batch.requestedIdentifiers, k ∈ selection.identifiers)
    (htasks : ∀ k ∈ batch.requestedTasks, k ∈ selection.taskIdentifiers) :
    BatchAllowed libs batch { selected with protocolVersion := batch.version } := by
  obtain ⟨_, hsecrets, hselectedTasks⟩ := selectState_ok hselected
  have hown {k : String} (hk : k ∈ ownGenerated batch) : k ∈ selection.identifiers :=
    hvalues k ((h.values.same k).mp (List.mem_append_left _ (List.mem_append_right _ hk)))
  have hderive {k : String} (hk : k ∈ batch.derive) : k ∈ selection.identifiers :=
    hvalues k ((h.values.same k).mp (List.mem_append_right _ hk))
  have htask {entry : TaskEntry} (hentry : entry ∈ batch.tasks) :
      entry.identifier ∈ selection.taskIdentifiers :=
    htasks _ ((h.tasks.same _).mp (List.mem_map_of_mem hentry))
  refine ⟨Std.le_refl _, h.notOlder, h.legacy, h.entries, h.ownSources, fun item hitem => ?_,
    fun k hk => ?_, ⟨h.values.distinct, h.values.same, fun k hk => ?_⟩, h.contents,
    ⟨h.tasks.distinct, h.tasks.same, fun k hk => ?_⟩, fun entry hentry => ?_⟩
  · obtain ⟨hgenerates, hcontributes⟩ := h.generate item hitem
    refine ⟨?_, hcontributes⟩
    unfold Generates at hgenerates ⊢
    split at hgenerates
    next =>
      obtain ⟨hvalid, habsent, hrest⟩ := hgenerates
      refine ⟨hvalid, fun secret hsecret => habsent secret ?_, hrest⟩
      rw [hsecrets] at hsecret
      exact (List.mem_filter.mp hsecret).1
    next hnone =>
      have hmem : item.identifier ∈ ownGenerated batch :=
        List.mem_map_of_mem (List.mem_filter.mpr ⟨hitem, decide_eq_true hnone⟩)
      rw [hsecrets, find_select (hown hmem)]
      exact hgenerates
  · obtain ⟨hentry, hgenerated, source, hsource, hderived⟩ := h.derive k hk
    refine ⟨hentry, hgenerated, source, hsource, ?_⟩
    rw [hsecrets, find_select (hderive hk)]
    exact hderived
  · rw [hsecrets]
    exact mem_select (hvalues k hk) (h.values.available k hk)
  · rw [hselectedTasks]
    exact mem_select (htasks k hk) (h.tasks.available k hk)
  · obtain ⟨hversion, hcontributes, password, hpassword, hlocal, hlength⟩ := h.taskEntries entry hentry
    refine ⟨hversion, hcontributes, password, hpassword, ?_, hlength⟩
    rw [hselectedTasks, isLocalKey_select (htask hentry)]
    exact hlocal

/-- The server, asked for the selection, answers it and admits the batch. -/
def Admits (libs : Libraries) (state : TargetState) (selection : DeploymentSelection) (batch : WireBatch) :
    Prop :=
  ∃ selected, selectState state selection = .ok selected ∧ admitBatch libs selection selected batch = .ok ()

/-- Items that say everything the target has to know of a value: once each, and made or derived as
both sides declare it. -/
structure ItemsReady (libs : Libraries) (expected : ExpectedTarget) (state : TargetState)
    (items : BatchItems) : Prop where
  generation : state.protocolVersion < generationProtocolVersion → items.generate = [] ∧ items.derive = []
  sharing : state.protocolVersion < sharedSourceProtocolVersion →
    ∀ item ∈ items.generate, item.shared = none
  once : (batchOf state.protocolVersion items).requestedIdentifiers.Nodup
  tasksOnce : (items.tasks.map (·.identifier)).Nodup
  own : ∀ item ∈ items.generate, item.shared = none →
    verifyGenerator state expected item.identifier = .ok () ∧
      ∀ secret ∈ state.secrets, secret.identifier = item.identifier → secret.publicInfo = none
  shared : ∀ item ∈ items.generate, item.shared ≠ none → Generates [] state.secrets item
  contributions : ∀ item ∈ items.generate, Contributes libs item.clientContributionBase64
  sources : ∀ k ∈ items.derive, ∃ source ∈ items.generate.map (·.identifier),
    ((state.secrets.find? (·.identifier = k)).bind (·.derived)).bind libs.jsonIdentifier = some source
  contents : ∀ entry ∈ items.entries, validVersion entry.versionId ∧ entry.contentsBase64 ≠ ""
  taskEntries : ∀ entry ∈ items.tasks, TaskAllowed libs state.tasks entry

section

variable {libs : Libraries} {expected : ExpectedTarget} {state : TargetState} {leftOut : List LeftOut}
  {items : BatchItems} {batch : WireBatch}

theorem deployWithGeneration_ok (h : deployWithGeneration libs expected state items = .ok batch) :
    batch = batchOf state.protocolVersion items ∧ BatchAllowed libs batch state := by
  simp only [deployWithGeneration, except_bind_ok, exists_unit_ok, rejectIf_ok, validateBatch_ok] at h
  obtain ⟨_, _, _, hallowed, h⟩ := h
  cases h
  exact ⟨rfl, hallowed⟩

theorem kept_admit {selected : TargetState} (hopen : openDeployment libs expected state = .ok leftOut)
    (hcompare : compareTarget libs state expected = .ok leftOut) (hkept : ForKept expected leftOut batch)
    (hversion : batch.version = state.protocolVersion)
    (hallowed : BatchAllowed libs batch { selected with protocolVersion := batch.version }) :
    admitBatch libs (selection expected) selected batch = .ok () := by
  have hcompared := compareTarget_ok hcompare
  have hall (hold : batch.version < notDeployedProtocolVersion) : leftOut = [] := by
    rw [hversion] at hold
    exact ((openDeployment_ok hcompare).mp hopen).2 hold
  simp only [admitBatch, except_bind_ok, exists_unit_ok, rejectIf_ok, not_not, validateBatch_ok]
  refine ⟨?_, ?_, ?_, hallowed⟩
  · rw [hversion]
    exact ⟨hcompared.notOlder, hcompared.notNewer⟩
  · refine checkSubset_of (fun k hk => ?_) hallowed.values.distinct.nodup fun hold k hk => ?_
    · exact (mem_keptSecrets.mp ((hkept.values k).mp hk)).1
    · rw [hkept.values, mem_keptSecrets, hall hold]
      exact ⟨hk, List.not_mem_nil⟩
  · refine checkSubset_of (fun k hk => ?_) hallowed.tasks.distinct.nodup fun hold k hk => ?_
    · exact (mem_keptTasks.mp ((hkept.tasks k).mp hk)).1
    · rw [hkept.tasks, mem_keptTasks, hall hold]
      exact ⟨hk, List.not_mem_nil⟩

/-- A batch of the client for what it kept is admitted where its state is from. -/
theorem built_admitted {server : TargetState} (hopen : openDeployment libs expected state = .ok leftOut)
    (hcompare : compareTarget libs state expected = .ok leftOut) (hkept : ForKept expected leftOut batch)
    (hbuilt : deployWithGeneration libs expected state items = .ok batch)
    (hserver : server = state ∨ selectState server (selection expected) = .ok state) :
    Admits libs server (selection expected) batch := by
  have hcompared := compareTarget_ok hcompare
  obtain ⟨hsome, hwhole⟩ := (openDeployment_ok hcompare).mp hopen
  obtain ⟨hbatch, hallowed⟩ := deployWithGeneration_ok hbuilt
  have hversion : batch.version = state.protocolVersion := by rw [hbatch]; rfl
  rcases hserver with rfl | hanswer
  · have hvalid : validateSelection (selection expected) = .ok () := by
      rw [validateSelection_ok]
      exact ⟨fun hempty => hsome (List.append_eq_nil_iff.mpr hempty), hcompared.secrets, hcompared.tasks⟩
    obtain ⟨selected, hselected⟩ : ∃ selected, selectState server (selection expected) = .ok selected := by
      rw [selectState, hvalid]
      exact ⟨_, rfl⟩
    refine ⟨selected, hselected, kept_admit hopen hcompare hkept hversion ?_⟩
    exact hallowed.select hselected (fun k hk => (mem_keptSecrets.mp ((hkept.values k).mp hk)).1)
      fun k hk => (mem_keptTasks.mp ((hkept.tasks k).mp hk)).1
  · refine ⟨state, hanswer, kept_admit hopen hcompare hkept hversion ?_⟩
    rw [hversion]
    exact hallowed

theorem own_found (hcompared : Compared state expected leftOut) {k : String}
    (hk : k ∈ keptSecrets expected leftOut) :
    ∃ secret, state.secrets.find? (·.identifier = k) = some secret := by
  obtain ⟨secret, hsecret, hsame⟩ := List.mem_map.mp (hcompared.kept_declared hk)
  apply Option.isSome_iff_exists.mp
  rw [List.find?_isSome]
  exact ⟨secret, hsecret, decide_eq_true hsame⟩

theorem ready_allowed (hcompared : Compared state expected leftOut)
    (hkept : ForKept expected leftOut (batchOf state.protocolVersion items))
    (hready : ItemsReady libs expected state items) :
    BatchAllowed libs (batchOf state.protocolVersion items) state := by
  have hvalid : Distinct (batchOf state.protocolVersion items).requestedIdentifiers :=
    ⟨fun k hk => hcompared.secrets.valid k (mem_keptSecrets.mp ((hkept.values k).mp hk)).1, hready.once⟩
  have hvalidTasks : Distinct (batchOf state.protocolVersion items).requestedTasks :=
    ⟨fun k hk => hcompared.tasks.valid k (mem_keptTasks.mp ((hkept.tasks k).mp hk)).1, hready.tasksOnce⟩
  obtain ⟨hfront, _, hapart⟩ := List.nodup_append'.mp hready.once
  obtain ⟨hentries, _, hownApart⟩ := List.nodup_append'.mp hfront
  have hmemOwn {item : GenerateEntry} (hitem : item ∈ items.generate) (hown : item.shared = none) :
      item.identifier ∈ (items.generate.filter (·.shared = none)).map (·.identifier) :=
    List.mem_map_of_mem (List.mem_filter.mpr ⟨hitem, decide_eq_true hown⟩)
  refine ⟨Std.le_refl _, hcompared.notOlder, fun hlegacy => ?_, ⟨fun k hk => ?_, hentries⟩, hready.sharing,
    fun item hitem => ⟨?_, hready.contributions item hitem⟩, fun k hk => ⟨?_, ?_, hready.sources k hk⟩,
    ⟨hvalid, fun _ => Iff.rfl, fun k hk => hcompared.kept_declared ((hkept.values k).mp hk)⟩,
    hready.contents,
    ⟨hvalidTasks, fun _ => Iff.rfl, fun k hk => hcompared.kept_declaredTask ((hkept.tasks k).mp hk)⟩,
    hready.taskEntries⟩
  · apply hready.generation
    change state.protocolVersion = 1 at hlegacy
    rw [hlegacy]
    decide
  · exact hvalid.valid k (List.mem_append_left _ (List.mem_append_left _ hk))
  · cases hshared : item.shared with
    | some shared =>
      have hgenerates := hready.shared item hitem (by rw [hshared]; exact nofun)
      simp only [Generates, hshared] at hgenerates ⊢
      exact hgenerates
    | none =>
      have hmem := hmemOwn hitem hshared
      have hrequested : item.identifier ∈ (batchOf state.protocolVersion items).requestedIdentifiers :=
        List.mem_append_left _ (List.mem_append_right _ hmem)
      obtain ⟨target, htarget⟩ := own_found hcompared ((hkept.values _).mp hrequested)
      obtain ⟨hverified, hpublic⟩ := hready.own item hitem hshared
      simp only [verifyGenerator, htarget, except_bind_ok, orReject_ok] at hverified
      obtain ⟨_, _, generator, hgenerator, _⟩ := hverified
      have hfound := List.find?_some htarget
      simp only [Generates, hshared]
      refine ⟨fun hentry => hownApart hentry hmem, target, htarget, ?_, ?_⟩
      · have hsome : target.generator = some generator := hgenerator
        rw [hsome]
        exact nofun
      · exact hpublic target (List.mem_of_find?_eq_some htarget) (of_decide_eq_true hfound)
  · exact fun hentry => hapart (List.mem_append_left _ hentry) hk
  · intro hgenerated
    obtain ⟨item, hitem, rfl⟩ := List.mem_map.mp hgenerated
    by_cases hshared : item.shared = none
    · exact hapart (List.mem_append_right _ (hmemOwn hitem hshared)) hk
    · have hgenerates := hready.shared item hitem hshared
      obtain ⟨shared, hsome⟩ := Option.ne_none_iff_exists'.mp hshared
      simp only [Generates, hsome] at hgenerates
      have hrequested : item.identifier ∈ (batchOf state.protocolVersion items).requestedIdentifiers :=
        List.mem_append_right _ hk
      obtain ⟨secret, hsecret, hsame⟩ :=
        List.mem_map.mp (hcompared.kept_declared ((hkept.values _).mp hrequested))
      exact hgenerates.2.1 secret hsecret hsame

/-- The client builds the batch for what it kept from every list of items that are ready. -/
theorem ready_built (hcompared : Compared state expected leftOut)
    (hkept : ForKept expected leftOut (batchOf state.protocolVersion items))
    (hready : ItemsReady libs expected state items) :
    deployWithGeneration libs expected state items = .ok (batchOf state.protocolVersion items) := by
  simp only [deployWithGeneration, except_bind_ok, exists_unit_ok, rejectIf_ok, verifyGenerators,
    forM_ok_iff, validateBatch_ok]
  refine ⟨?_, ?_, ?_, ready_allowed hcompared hkept hready, rfl⟩
  · rintro ⟨hsome, hold⟩
    obtain ⟨hgenerate, hderive⟩ := hready.generation hold
    rcases hsome with hne | hne
    · exact hne hgenerate
    · exact hne hderive
  · rintro ⟨⟨item, hitem, hshared⟩, hold⟩
    exact hshared (hready.sharing hold item hitem)
  · intro k hk
    obtain ⟨item, hitem, rfl⟩ := List.mem_map.mp hk
    obtain ⟨hitem, hown⟩ := List.mem_filter.mp hitem
    exact (hready.own item hitem (of_decide_eq_true hown)).1

end

/-- What the client leaves out and what it keeps partition what it expects; the target declares each
kept value and task alike; and the batch the client builds for them is admitted by the target. -/
theorem operator_and_target_agree (libs : Libraries) (state : TargetState) (expected : ExpectedTarget)
    (leftOut : List LeftOut) (h : compareTarget libs state expected = .ok leftOut) :
    (∀ k, k ∈ expectedIdentifiers expected ↔ k ∈ leftOut.map (·.identifier) ∨
      k ∈ keptSecrets expected leftOut ++ keptTasks expected leftOut) ∧
    (∀ k ∈ keptSecrets expected leftOut ++ keptTasks expected leftOut, k ∉ leftOut.map (·.identifier)) ∧
    (∀ item ∈ expected.secrets, item.identifier ∈ keptSecrets expected leftOut → DeclaredSecret state item) ∧
    (∀ item ∈ expected.tasks, item.identifier ∈ keptTasks expected leftOut → DeclaredTask state item) ∧
    (openDeployment libs expected state = .ok leftOut ↔ expectedIdentifiers expected ≠ [] ∧
      (state.protocolVersion < notDeployedProtocolVersion → leftOut = [])) ∧
    ∀ items, openDeployment libs expected state = .ok leftOut →
      ForKept expected leftOut (batchOf state.protocolVersion items) →
      (ItemsReady libs expected state items → ∃ batch,
        deployWithGeneration libs expected state items = .ok batch) ∧
      ∀ batch, deployWithGeneration libs expected state items = .ok batch →
        batch = batchOf state.protocolVersion items ∧
        ∀ server, server = state ∨ selectState server (selection expected) = .ok state →
          Admits libs server (selection expected) batch := by
  have hcompared := compareTarget_ok h
  refine ⟨fun k => ?_, fun k hk => ?_, fun item hitem hkept => ?_, fun item hitem hkept => ?_,
    openDeployment_ok h, fun items hopen hkept => ⟨fun hready => ?_, fun batch hbuilt => ?_⟩⟩
  · constructor
    · intro hk
      by_cases hleft : k ∈ leftOut.map (·.identifier)
      · exact Or.inl hleft
      · rw [List.mem_append, mem_keptSecrets, mem_keptTasks]
        rcases List.mem_append.mp hk with hk | hk
        · exact Or.inr (Or.inl ⟨hk, hleft⟩)
        · exact Or.inr (Or.inr ⟨hk, hleft⟩)
    · rintro (hk | hk)
      · exact hcompared.expected_of_leftOut hk
      · rw [List.mem_append, mem_keptSecrets, mem_keptTasks] at hk
        exact List.mem_append.mpr (hk.imp And.left And.left)
  · rw [List.mem_append, mem_keptSecrets, mem_keptTasks] at hk
    exact hk.elim And.right And.right
  · exact hcompared.declaredSecret hitem (mem_keptSecrets.mp hkept).2
  · exact hcompared.declaredTask hitem (mem_keptTasks.mp hkept).2
  · exact ⟨_, ready_built hcompared hkept hready⟩
  · obtain ⟨rfl, _⟩ := deployWithGeneration_ok hbuilt
    exact ⟨rfl, fun server hserver => built_admitted hopen h hkept hbuilt hserver⟩

/-- A target that declares the value and the task, and lacks another value. -/
def partState : TargetState := { keyState with absent := [gitOld] }

def partExpected : ExpectedTarget where
  hostname := "web"
  secrets := [⟨gitOld, ["admin"], ⟨"/persistent/secrets/git/service/old", "service", "git", "git", "0400",
      []⟩, none, none, none⟩,
    ⟨gitToken, ["admin"], ⟨"/persistent/secrets/git/service/token", "service", "git", "git", "0400", []⟩,
      none, none, none⟩]
  tasks := [⟨gitKey, localSshKey, ["admin"], ⟨"/persistent/secrets/git/service/key", "service", "git",
    "git", "0400", []⟩, none⟩]

def partLeftOut : List LeftOut := [⟨gitOld, true, "the host's current activation does not declare it"⟩]

def partItems : BatchItems := { entries := [⟨gitToken, "v1", "eA=="⟩], tasks := [keyEntry] }

theorem partExpected_compared : compareTarget keyLibraries partState partExpected = .ok partLeftOut := by
  decide +kernel

theorem partItems_ready : ItemsReady keyLibraries partExpected partState partItems := by
  have htask : TaskAllowed keyLibraries partState.tasks keyEntry :=
    ⟨by decide +kernel, ⟨_, rfl, by decide +kernel⟩, [], rfl, by decide +kernel, by decide⟩
  refine ⟨by decide, by decide, List.nodup_singleton _, List.nodup_singleton _, nofun, nofun, nofun, nofun,
    by decide +kernel, fun entry hentry => ?_⟩
  rw [List.mem_singleton.mp hentry]
  exact htask

theorem partItems_admitted : ∃ batch,
    deployWithGeneration keyLibraries partExpected partState partItems = .ok batch ∧
      Admits keyLibraries partState (selection partExpected) batch := by
  obtain ⟨_, _, _, _, hopen, hbatch⟩ := operator_and_target_agree keyLibraries partState partExpected
    partLeftOut partExpected_compared
  have hopened := hopen.mpr ⟨by decide, by decide⟩
  have hkept : ForKept partExpected partLeftOut (batchOf partState.protocolVersion partItems) :=
    ⟨fun k => by rw [show keptSecrets partExpected partLeftOut = [gitToken] by decide]; rfl,
      fun k => by rw [show keptTasks partExpected partLeftOut = [gitKey] by decide]; rfl⟩
  obtain ⟨hbuilds, hadmits⟩ := hbatch partItems hopened hkept
  obtain ⟨batch, hbuilt⟩ := hbuilds partItems_ready
  exact ⟨batch, hbuilt, (hadmits batch hbuilt).2 partState (Or.inl rfl)⟩

end NixSecrets.Transport
