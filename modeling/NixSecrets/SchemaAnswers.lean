import NixSecrets.SchemaValidation

namespace NixSecrets.Inventory

section

variable (libs : SchemaLibraries) (path : SecretPath)

theorem validateRecipients_answers (keys ids : List String) : (validateRecipients path keys ids).Answers := by
  apply Checked.answers_check
  exact fun _ => Checked.answers_refuseIf _

theorem validateDestination_answers (service : String) (destination : Destination) :
    (validateDestination path service destination).Answers := by
  unfold validateDestination
  apply Checked.answers_check
  intro _
  apply Checked.answers_check
  intro _
  apply Checked.answers_check
  intro _
  apply Checked.answers_check
  intro _
  apply Checked.answers_check
  exact fun _ => Checked.answers_refuseIf _

theorem refuseLocalHost_answers (host : String) : (refuseLocalHost libs path host).Answers := by
  apply Checked.answers_seq (localOnlySshHost_answers libs.toLibraries _)
  intro kind
  cases kind with
  | none => exact Checked.answers_ok ()
  | some kind => exact Checked.answers_refuse _

theorem validateDefault_answers (leaf : SecretLeaf) : (validateDefault libs path leaf).Answers := by
  unfold validateDefault
  split
  next => exact Checked.answers_ok ()
  next => exact Checked.answers_mapRefusal.mpr (validateSshKnownHosts_answers _ _ _ _)

theorem validatePublicDestination_answers (leaf : SecretLeaf) :
    (validatePublicDestination libs path leaf).Answers := by
  unfold validatePublicDestination
  apply Checked.answers_found
  intro id _
  apply Checked.answers_check
  intro _
  apply Checked.answers_check
  intro _
  apply Checked.answers_check
  intro _
  apply Checked.answers_check
  intro _
  apply Checked.answers_seq (Checked.answers_each fun host _ => refuseLocalHost_answers libs path host)
  exact fun _ => validateDefault_answers libs path leaf

theorem checkRegex_answers (pattern : Option String) :
    (ConsumerConstraints.checkRegex libs.toLibraries pattern).Answers := by
  cases pattern with
  | none => exact Checked.answers_ok ()
  | some pattern =>
    apply Checked.answers_check
    intro _
    split
    next => exact Checked.answers_refuse _
    next => exact Checked.answers_ok ()

theorem validateValue_answers (valueType : Option ValueType) (constraints : Option ConsumerConstraints) :
    (validateValue libs.toLibraries path valueType constraints).Answers := by
  apply Checked.answers_check
  intro _
  cases constraints with
  | none => exact Checked.answers_ok ()
  | some constraints =>
    apply Checked.answers_mapRefusal.mpr
    apply Checked.answers_check
    exact fun _ => checkRegex_answers libs _

theorem validateValueGenerator_answers (leaf : SecretLeaf) : (validateValueGenerator path leaf).Answers := by
  unfold validateValueGenerator
  split
  next => exact Checked.answers_ok ()
  next generator _ =>
    apply Checked.answers_check
    intro _
    apply Checked.answers_check
    intro _
    apply Checked.answers_check
    intro _
    apply Checked.answers_mapRefusal.mpr
    cases generator with
    | randomBytes bytes encoding front suffix =>
      apply Checked.answers_check
      intro _
      exact Checked.answers_each fun affix _ => Checked.answers_refuseIf _

theorem validateDefinition_answers (derived : DerivedFrom) : derived.validateDefinition.Answers := by
  apply Checked.answers_seq (Checked.answers_mapRefusal.mpr (SecretPath.parse_answers _))
  intro source
  apply Checked.answers_check
  intro _
  apply Checked.answers_check
  intro _
  apply Checked.answers_seq (Checked.answers_each fun affix _ => Checked.answers_refuseIf _)
  exact fun _ => Checked.answers_pure _

theorem validateDerivedLeaf_answers (leaf : SecretLeaf) : (validateDerivedLeaf libs path leaf).Answers := by
  unfold validateDerivedLeaf
  split
  next => exact Checked.answers_ok ()
  next derived _ =>
    apply Checked.answers_check
    intro _
    apply Checked.answers_seq (Checked.answers_mapRefusal.mpr (validateDefinition_answers derived))
    exact fun _ => Checked.answers_pure _

theorem validateBootstrap_answers (bootstrap : StorageBoxBootstrap) :
    (validateBootstrap libs path bootstrap).Answers := by
  apply Checked.answers_check
  intro _
  apply Checked.answers_check
  intro _
  apply Checked.answers_check
  intro _
  apply Checked.answers_check
  exact fun _ => Checked.answers_refuseIf _

theorem validateGeneratedType_answers (leaf : GeneratedSecretLeaf) :
    (validateGeneratedType libs path leaf).Answers := by
  unfold validateGeneratedType
  split
  next =>
    apply Checked.answers_found
    intro bootstrap _
    apply Checked.answers_check
    intro _
    apply Checked.answers_seq (validateBootstrap_answers libs path bootstrap)
    exact fun _ => Checked.answers_refuseIf _
  next =>
    apply Checked.answers_check
    intro _
    cases leaf.generatedSecret.registerAt with
    | none => exact Checked.answers_ok ()
    | some registerAt =>
      apply Checked.answers_seq (Checked.answers_mapRefusal.mpr (SecretPath.parse_answers registerAt))
      exact fun _ => Checked.answers_pure _

theorem validateStored_answers (service : String) (leaf : SecretLeaf) :
    (validateStored libs path service leaf).Answers := by
  unfold validateStored
  split
  next =>
    apply Checked.answers_check
    intro _
    apply Checked.answers_seq (validateRecipients_answers path _ _)
    intro _
    apply Checked.answers_seq (validateDestination_answers path service _)
    intro _
    apply Checked.answers_seq (validateValue_answers libs path _ _)
    intro _
    apply Checked.answers_seq (validateValueGenerator_answers path leaf)
    exact fun _ => validateDerivedLeaf_answers libs path leaf
  next =>
    apply Checked.answers_check
    exact fun _ => validatePublicDestination_answers libs path leaf

end

variable (libs : SchemaLibraries)

theorem validateLeaf_answers (service : String) (leaf : LeafSpec) :
    (validateLeaf libs service leaf).Answers := by
  cases leaf with
  | stored path leaf =>
    apply Checked.answers_check
    intro _
    apply Checked.answers_seq (Checked.answers_refuseIf _)
    exact fun _ => validateStored_answers libs path service leaf
  | generated path leaf =>
    apply Checked.answers_check
    intro _
    apply Checked.answers_seq (Checked.answers_refuseIf _)
    intro _
    apply Checked.answers_seq (validateRecipients_answers path _ _)
    intro _
    apply Checked.answers_seq (validateDestination_answers path service _)
    intro _
    apply Checked.answers_seq (validateValue_answers libs path _ _)
    exact fun _ => validateGeneratedType_answers libs path leaf
  | operator path leaf =>
    apply Checked.answers_seq (Checked.answers_refuseIf _)
    intro _
    apply Checked.answers_seq (validateRecipients_answers path _ _)
    intro _
    apply Checked.answers_check
    intro _
    cases leaf.generator with
    | none => exact Checked.answers_ok ()
    | some generator =>
      apply Checked.answers_mapRefusal.mpr
      apply Checked.answers_check
      exact fun _ => Checked.answers_refuseIf _

/-- A walk that accepts a tree accepted each of its leaves. -/
theorem validateTree_leaf {path : List String} {service : String} {node : SecretNode}
    (h : validateTree libs path service node = .ok ()) {leaf : LeafSpec}
    (hleaf : leaf ∈ leavesBelow path node) : validateLeaf libs service leaf = .ok () := by
  have hcarry := walk_ok h
  rw [Checked.carry_unit] at hcarry
  exact Checked.each_ok hcarry leaf hleaf

/-- An accepted public value has the name and the port that the registry takes for granted. -/
theorem publicInfo_complete {service : String} {path : SecretPath} {leaf : SecretLeaf}
    (h : validateLeaf libs service (.stored path leaf) = .ok ()) (hkind : leaf.kind = .publicInfo) :
    leaf.sharedPublicId.isSome ∧ leaf.expectedSshPort.isSome := by
  obtain ⟨_, _, h⟩ := Checked.bind_ok h
  obtain ⟨_, _, h⟩ := Checked.bind_ok h
  rw [validateStored, hkind] at h
  obtain ⟨_, _, h⟩ := Checked.bind_ok h
  obtain ⟨id, hid, h⟩ := Checked.bind_ok h
  obtain ⟨_, _, h⟩ := Checked.bind_ok h
  obtain ⟨_, _, h⟩ := Checked.bind_ok h
  obtain ⟨_, _, h⟩ := Checked.bind_ok h
  obtain ⟨_, hport, _⟩ := Checked.bind_ok h
  have hset := Checked.refuseIf_ok hport
  rw [Checked.orRefuse_ok hid]
  cases hp : leaf.expectedSshPort with
  | none => simp [hp] at hset
  | some port => exact ⟨rfl, rfl⟩

theorem checkSharedPublic_answers {service : String} {leaf : LeafSpec}
    (h : validateLeaf libs service leaf = .ok ()) (host : String) (seen : PublicSpecs) :
    (checkSharedPublic host seen leaf).Answers := by
  cases leaf with
  | generated path leaf => exact Checked.answers_ok seen
  | operator path leaf => exact Checked.answers_ok seen
  | stored path leaf =>
    simp only [checkSharedPublic]
    split
    next hkind =>
      obtain ⟨hid, hport⟩ := publicInfo_complete libs h hkind
      apply Checked.answers_seq (Checked.answers_orPanic.mpr hid)
      intro id
      apply Checked.answers_seq (Checked.answers_orPanic.mpr hport)
      intro port
      apply Checked.answers_check
      exact fun _ => Checked.answers_pure _
    next => exact Checked.answers_ok seen

theorem checkRecipientNames_answers (host : String) (names keys : List String) (registry : Entries String) :
    (checkRecipientNames host names keys registry).Answers := by
  unfold checkRecipientNames
  split
  next => exact Checked.answers_ok ()
  next =>
    apply Checked.answers_check
    exact fun _ => Checked.answers_refuseIf _

theorem descend_answers (path : SecretPath) (rest : List String) (node : SecretNode) :
    (descend path rest node).Answers := by
  induction rest generalizing node with
  | nil =>
    cases node with
    | branch children => exact Checked.answers_refuse _
    | secret leaf => exact Checked.answers_ok _
    | operator leaf => exact Checked.answers_ok _
    | generated leaf => exact Checked.answers_ok _
  | cons component rest ih =>
    cases node with
    | branch children =>
      unfold descend
      split
      next child _ => exact ih child
      next => exact Checked.answers_refuse _
    | secret leaf => exact Checked.answers_refuse _
    | operator leaf => exact Checked.answers_refuse _
    | generated leaf => exact Checked.answers_refuse _

namespace Schema

theorem leaf_answers (schema : Schema) {path : SecretPath} (h : path.Made) :
    (schema.leaf path).Answers := by
  have hlength := h.length
  unfold leaf
  apply Checked.answers_seq (Checked.answers_index.mpr (by omega))
  intro hostName
  apply Checked.answers_found
  intro host _
  apply Checked.answers_seq (Checked.answers_index.mpr (by omega))
  intro space
  apply Checked.answers_found
  intro services _
  apply Checked.answers_seq (Checked.answers_index.mpr (by omega))
  intro service
  apply Checked.answers_found
  exact fun node _ => descend_answers path _ node

theorem secret_answers (schema : Schema) {path : SecretPath} (h : path.Made) :
    (schema.secret path).Answers := by
  apply Checked.answers_seq (schema.leaf_answers h)
  intro leaf
  cases leaf with
  | stored path leaf => exact Checked.answers_ok leaf
  | generated path leaf => exact Checked.answers_refuse _
  | operator path leaf => exact Checked.answers_refuse _

theorem storedLeaves_answers (schema : Schema) : schema.storedLeaves.Answers := by
  rw [storedLeaves, walkAll_eq]
  apply Checked.answers_carry
  intro leaves leaf _
  cases leaf with
  | generated path leaf => exact Checked.answers_ok leaves
  | operator path leaf => exact Checked.answers_ok leaves
  | stored path leaf =>
    refine Checked.answers_bind.mpr ⟨SecretPath.new_answers _, fun path hpath => ?_⟩
    apply Checked.answers_seq (schema.leaf_answers (SecretPath.new_ok hpath).2.1)
    intro spec
    cases spec with
    | stored path spec => exact Checked.answers_pure _
    | generated path spec => exact Checked.answers_pure _
    | operator path spec => exact Checked.answers_pure _

theorem checkSource_answers (schema : Schema) (path : SecretPath) {source : SecretPath}
    (h : source.Made) : (schema.checkSource path source).Answers := by
  have hlength := h.length
  unfold checkSource
  apply Checked.answers_seq (Checked.answers_index.mpr (by omega))
  intro host
  split
  next => exact Checked.answers_pure _
  next =>
    apply Checked.answers_check
    intro _
    apply Checked.answers_seq (Checked.answers_mapRefusal.mpr (schema.leaf_answers h))
    exact fun _ => Checked.answers_refuseIf _

theorem validateDefinition_made {derived : DerivedFrom} {source : SecretPath}
    (h : derived.validateDefinition = .ok source) : source.Made := by
  obtain ⟨path, hpath, h⟩ := Checked.bind_ok h
  obtain ⟨_, _, h⟩ := Checked.bind_ok h
  obtain ⟨_, _, h⟩ := Checked.bind_ok h
  obtain ⟨_, _, h⟩ := Checked.bind_ok h
  cases h
  exact (SecretPath.new_ok (Checked.mapRefusal_ok hpath)).2.1

theorem validateDerived_answers (schema : Schema) : (schema.validateDerived libs).Answers := by
  apply Checked.answers_seq schema.storedLeaves_answers
  intro leaves
  apply Checked.answers_each
  intro entry _
  unfold checkDerived
  split
  next => exact Checked.answers_ok ()
  next derived _ =>
    refine Checked.answers_bind.mpr
      ⟨Checked.answers_mapRefusal.mpr (validateDefinition_answers derived), fun source hsource => ?_⟩
    exact schema.checkSource_answers _ (validateDefinition_made (Checked.mapRefusal_ok hsource))

theorem validateProducer_answers (schema : Schema) (hostName : String) (producers : Entries String)
    (identifier : Option String) : (schema.validateProducer hostName producers identifier).Answers := by
  cases identifier with
  | none => exact Checked.answers_ok producers
  | some identifier =>
    refine Checked.answers_bind.mpr ⟨SecretPath.parse_answers identifier, fun path hpath => ?_⟩
    apply Checked.answers_seq (schema.secret_answers (SecretPath.new_ok hpath).2.1)
    intro spec
    apply Checked.answers_check
    intro hspec
    have hshared : spec.sharedPublicId.isSome := by
      rw [Option.isSome_iff_ne_none]
      exact fun hnone => hspec (Or.inr (Or.inl hnone))
    apply Checked.answers_seq (Checked.answers_orPanic.mpr hshared)
    intro shared
    apply Checked.answers_check
    exact fun _ => Checked.answers_pure _

theorem validateService_answers (hostName : String) (host : HostSchema) (specs : PublicSpecs)
    (tree : String × String × SecretNode) : (validateService libs hostName host specs tree).Answers := by
  obtain ⟨space, service, node⟩ := tree
  apply Checked.answers_seq (validateComponent_answers service)
  intro _
  refine Checked.answers_bind.mpr ⟨?_, fun _ htree => ?_⟩
  · exact walk_answers validateComponent_answers fun _ leaf _ => validateLeaf_answers libs service leaf
  · apply Checked.answers_seq
    · exact walk_answers (fun _ => Checked.answers_ok ()) fun _ leaf _ =>
        checkRecipientNames_answers hostName _ _ _
    · intro _
      exact walk_answers (fun _ => Checked.answers_ok ()) fun seen leaf hleaf =>
        checkSharedPublic_answers libs (validateTree_leaf libs htree hleaf) hostName seen

theorem validateHost_answers (schema : Schema) (registries : Registries) (entry : String × HostSchema) :
    (schema.validateHost libs registries entry).Answers := by
  obtain ⟨hostName, host⟩ := entry
  apply Checked.answers_seq (validateComponent_answers hostName)
  intro _
  apply Checked.answers_check
  intro _
  apply Checked.answers_check
  intro _
  apply Checked.answers_seq (schema.validateProducer_answers hostName _ _)
  intro producers
  apply Checked.answers_seq
  · apply Checked.answers_carry
    intro specs group _
    apply Checked.answers_seq (validateNamespace_answers group.1)
    intro _
    exact Checked.answers_carry fun specs tree _ => validateService_answers libs hostName host specs _
  · intro publicSpecs
    apply Checked.answers_seq
    · apply Checked.answers_each
      intro group _
      apply Checked.answers_seq (validateNamespace_answers group.1)
      intro _
      apply Checked.answers_each
      intro path _
      apply Checked.answers_check
      exact fun _ => Checked.answers_each fun component _ => validateComponent_answers component
    · intro _
      apply Checked.answers_seq (Checked.answers_each fun group _ => Checked.answers_refuseIf _)
      exact fun _ => Checked.answers_pure _

/-- Of all the checks only the index of the identities can panic. -/
theorem validate_answers {schema : Schema} :
    (schema.validate libs).Answers ↔ schema.identityIndex.Answers := by
  constructor
  · exact fun h => (Checked.answers_bind.mp h).1
  · intro h
    apply Checked.answers_seq h
    intro _
    apply Checked.answers_seq (schema.validateDerived_answers libs)
    intro _
    apply Checked.answers_seq (Checked.answers_carry fun registries entry _ =>
      schema.validateHost_answers libs registries entry)
    exact fun _ => Checked.answers_pure _

end Schema

/-- The leaves that can be indexed after those in the index. -/
theorem carry_insertIdentity {index : IdentityIndex} {leaves : List LeafSpec} :
    (∃ index', Checked.carry insertIdentity index leaves = .ok index') ↔
      (∀ leaf ∈ leaves, leaf.Placed) ∧ (leaves.filterMap LeafSpec.identity).Nodup ∧
      ∀ identity ∈ leaves.filterMap LeafSpec.identity, identity ∉ index.map Prod.fst := by
  induction leaves generalizing index with
  | nil => simp [Checked.carry]
  | cons leaf rest ih =>
    have hstep : (∃ index', Checked.carry insertIdentity index (leaf :: rest) = .ok index') ↔
        (leaf.Placed ∧ ∀ identity, leaf.identity = some identity → identity ∉ index.map Prod.fst) ∧
        ∃ index', Checked.carry insertIdentity ((leaf.identity.map (·, leaf.path)).toList ++ index) rest =
          .ok index' := by
      constructor
      · rintro ⟨index', h⟩
        obtain ⟨c, hc, hrest⟩ := Checked.bind_ok h
        obtain ⟨hplaced, hfresh, rfl⟩ := insertIdentity_ok.mp hc
        exact ⟨⟨hplaced, hfresh⟩, index', hrest⟩
      · rintro ⟨⟨hplaced, hfresh⟩, index', hrest⟩
        refine ⟨index', ?_⟩
        rw [Checked.carry, insertIdentity_ok.mpr ⟨hplaced, hfresh, rfl⟩, Checked.ok_bind]
        exact hrest
    rw [hstep, ih, List.forall_mem_cons]
    cases hidentity : leaf.identity with
    | none => simp [hidentity, and_assoc]
    | some identity =>
      simp only [List.filterMap_cons, hidentity, Option.some.injEq, forall_eq', Option.map_some,
        Option.toList_some, List.cons_append, List.nil_append, List.map_cons, List.mem_cons, not_or,
        List.nodup_cons, forall_eq_or_imp]
      constructor
      · rintro ⟨⟨hplaced, hfresh⟩, hall, hnodup, hnew⟩
        exact ⟨⟨hplaced, hall⟩, ⟨fun hmem => (hnew identity hmem).1 rfl, hnodup⟩, hfresh,
          fun other hother => (hnew other hother).2⟩
      · rintro ⟨⟨hplaced, hall⟩, ⟨hnot, hnodup⟩, hfresh, hnew⟩
        refine ⟨⟨hplaced, hfresh⟩, hall, hnodup, fun other hother => ⟨?_, hnew other hother⟩⟩
        rintro rfl
        exact hnot hother

/-- The document has a leaf in the namespace whose ends overlap, under an identity of a user, and
every leaf before it has no identity or one that fits and is new. -/
def Schema.ReachesOverlap (schema : Schema) : Prop :=
  ∃ front leaf rest, schema.leaves = front ++ leaf :: rest ∧ (∀ earlier ∈ front, earlier.Placed) ∧
    (front.filterMap LeafSpec.identity).Nodup ∧ leaf.Overlaps

theorem Schema.identityIndex_answers {schema : Schema} :
    schema.identityIndex.Answers ↔ ¬ schema.ReachesOverlap := by
  rw [identityIndex, walkAll_eq, Checked.answers_carry_iff]
  constructor
  · rintro h ⟨front, leaf, rest, hleaves, hplaced, hnodup, hoverlaps⟩
    obtain ⟨index, hindex⟩ := (@carry_insertIdentity [] front).mpr ⟨hplaced, hnodup, by simp⟩
    exact insertIdentity_answers.mp (h front leaf rest index hleaves hindex) hoverlaps
  · intro h front leaf rest index hleaves hindex
    rw [insertIdentity_answers]
    intro hoverlaps
    obtain ⟨hplaced, hnodup, _⟩ := carry_insertIdentity.mp ⟨index, hindex⟩
    exact h ⟨front, leaf, rest, hleaves, hplaced, hnodup, hoverlaps⟩

/-- Reading a document returns, with a schema or an error, unless the index reaches the overlap. -/
theorem fromJson_answers_iff (libs : SchemaLibraries) (decode : String → Except String Schema)
    (input : String) : (Schema.fromJson libs decode input).Answers ↔
      ∀ schema, decode input = .ok schema → ¬ schema.ReachesOverlap := by
  unfold Schema.fromJson
  cases decode input with
  | error message =>
    refine iff_of_true (Checked.answers_bind.mpr ⟨?_, fun schema h => ?_⟩) nofun
    · exact Checked.answers_mapRefusal.mpr (Checked.answers_ofExcept _)
    · cases h
  | ok schema =>
    have hvalidate : ((schema.validate libs).mapRefusal SchemaLoadError.schema >>= fun _ =>
        pure schema).Answers ↔ (schema.validate libs).Answers := by
      constructor
      · exact fun h => Checked.answers_mapRefusal.mp (Checked.answers_bind.mp h).1
      · exact fun h => Checked.answers_seq (Checked.answers_mapRefusal.mpr h) fun _ => Checked.answers_pure _
    simp only [Except.ok.injEq, forall_eq']
    exact hvalidate.trans ((Schema.validate_answers libs).trans Schema.identityIndex_answers)

def overlapLeaf : SecretLeaf where
  kind := .secret
  identity := some {
    host := "web", scope := "user", service := "app", responsibility := "app", name := "token" }
  recipientPublicKeys := ["ssh-ed25519 AAAA"]
  recipientIds := ["operator"]
  destination := {
    path := "/persistent/secrets/app/service/token", category := "service", owner := "root",
    group := "root", mode := "0400" }

def overlapSchema : Schema := [("web", {
  metadata := {
    socketPath := "/run/nix-secrets.sock"
    deployment := { host := "web", destination := "deploy@web", port := 22 } }
  serviceGroups := [("user-services", [("app", .branch [("token", .secret overlapLeaf)])])] })]

def overlapDocument : String :=
  "\x7b\"web\":\x7b\"metadata\":\x7b\"socketPath\":\"/run/nix-secrets.sock\"," ++
    "\"deployment\":\x7b\"host\":\"web\",\"destination\":\"deploy@web\",\"port\":22\x7d\x7d," ++
    "\"user-services\":\x7b\"app\":\x7b\"token\":\x7b\"kind\":\"secret\"," ++
    "\"identity\":\x7b\"host\":\"web\",\"scope\":\"user\",\"service\":\"app\"," ++
    "\"responsibility\":\"app\",\"name\":\"token\"\x7d," ++
    "\"recipientPublicKeys\":[\"ssh-ed25519 AAAA\"],\"recipientIds\":[\"operator\"]," ++
    "\"destination\":\x7b\"path\":\"/persistent/secrets/app/service/token\"," ++
    "\"category\":\"service\",\"owner\":\"root\",\"group\":\"root\",\"mode\":\"0400\"\x7d," ++
    "\"consumerUnits\":[]\x7d\x7d\x7d\x7d\x7d"

/-- A JSON library, as far as the one document goes. -/
def decodeOverlap (input : String) : Except String Schema :=
  if input = overlapDocument then .ok overlapSchema else .error "expected value at line 1 column 1"

def quietLibraries : SchemaLibraries where
  parseIp _ := none
  decodeBase64 _ := none
  opensshKey _ := none
  regexError _ := none
  debug text := text

theorem overlapping_namespace_panics :
    Schema.fromJson quietLibraries decodeOverlap overlapDocument = .error .panicked := by
  have hpanic : overlapSchema.validate quietLibraries = .error .panicked := by decide
  have hread : decodeOverlap overlapDocument = .ok overlapSchema := if_pos rfl
  rw [Schema.fromJson, hread]
  simp only [Checked.ofExcept, Checked.mapRefusal, Checked.ok_bind, hpanic]
  rfl

end NixSecrets.Inventory
