import NixSecrets.GenerationTree
import NixSecrets.FaultProgram

namespace NixSecrets

def stripPrefix (front name : String) : Option String :=
  if front.toList.isPrefixOf name.toList then some (String.ofList (name.toList.drop front.length))
  else none

def splitOnce (separator : Char) (value : String) : Option (String × String) :=
  match value.toList.dropWhile (· ≠ separator) with
  | [] => none
  | _ :: rest => some (String.ofList (value.toList.takeWhile (· ≠ separator)), String.ofList rest)

def validGeneration (name : String) : Bool :=
  (splitOnce '-' name).any fun (time, process) =>
    time.utf8ByteSize == 39 && process.utf8ByteSize == 10 &&
      time.toList.all Char.isDigit && process.toList.all Char.isDigit

/-- The last `width` decimal digits of a number. -/
def paddedDigits : Nat → Nat → List Char
  | 0, _ => []
  | width + 1, n => paddedDigits width (n / 10) ++ [Nat.digitChar (n % 10)]

def generationId (nanos process : Nat) : String :=
  String.ofList (paddedDigits 39 nanos ++ '-' :: paddedDigits 10 process)

/-- Where a symbolic link of a root points: `.generations/<id>` or `.current/<service>`. -/
inductive Target
  | generation (id : String)
  | service (name : String)
  deriving DecidableEq, Repr

/-- A generation directory; one that is being removed is no longer whole. -/
structure Generation where
  tree : Tree
  whole : Bool := true
  deriving DecidableEq

/-- A deployment root: its `.current` link, its links `.current-<key>`, its other links,
and the generations and staging directories under `.generations`. -/
structure Root where
  present : Bool := false
  current : Option Target := none
  pending : BTreeMap String Target := ∅
  services : BTreeMap String Target := ∅
  store : Bool := false
  generations : BTreeMap String Generation := ∅
  staging : BTreeSet String := ∅
  deriving DecidableEq

inductive Side
  | secrets | publicInfo
  deriving DecidableEq, Repr

def Side.path : Side → String
  | .secrets => "/persistent/secrets"
  | .publicInfo => "/persistent/public-info"

def Side.publishing (side : Side) : String := "publishing a generation under " ++ side.path

structure Roots where
  secrets : Root := {}
  publicInfo : Root := {}
  deriving DecidableEq

def Roots.at (w : Roots) : Side → Root
  | .secrets => w.secrets
  | .publicInfo => w.publicInfo

def Roots.update (w : Roots) (side : Side) (f : Root → Root) : Roots :=
  match side with
  | .secrets => { w with secrets := f w.secrets }
  | .publicInfo => { w with publicInfo := f w.publicInfo }

namespace Root

def invalidTarget : DeployError := .invalid "current pointer has an invalid target"

def currentGeneration (r : Root) : Except DeployError (Option String) :=
  match r.current with
  | none => .ok none
  | some (.generation id) => if validGeneration id then .ok (some id) else .error invalidTarget
  | some (.service _) => .error invalidTarget

def checkPointers (side : Side) : List (String × Target) → Except DeployError (List String)
  | [] => .ok []
  | (name, target) :: rest =>
    if validGeneration name ∧ target = .generation name then do
      return name :: (← checkPointers side rest)
    else .error (.invalid ("unexpected pending pointer " ++ side.path ++ "/.current-" ++ name))

def pendingPointers (side : Side) (r : Root) : Except DeployError (List String) :=
  checkPointers side r.pending.toList

/-- `.current-<id>` becomes `.current`. -/
def promote (id : String) (r : Root) : Root :=
  match r.pending[id]? with
  | some target => { r with current := some target, pending := r.pending.erase id }
  | none => r

def validateCurrent (r : Root) : Except DeployError Unit := do
  match ← r.currentGeneration with
  | none => .ok ()
  | some id => if id ∈ r.generations then .ok () else .error (.io "No such file or directory")

/-- The tree of the current generation, if there is one. -/
def currentTree (r : Root) : Except DeployError (Option Tree) := do
  match ← r.currentGeneration with
  | none => .ok none
  | some id => match r.generations[id]? with
    | some generation => .ok (some generation.tree)
    | none => .error (.io "No such file or directory")

def currentVersions (p : Platform) (r : Root) : Except DeployError (BTreeMap String String) := do
  match ← r.currentTree with
  | none => .ok ∅
  | some tree => readVersions p tree

def cloneCurrent (p : Platform) (r : Root) : Except DeployError Tree := do
  match ← r.currentTree with
  | none => .ok .empty
  | some tree => cloneTree p tree

def link? (r : Root) (name : String) : Option Target :=
  if name = ".current" then r.current
  else match stripPrefix ".current-" name with
    | some key => r.pending[key]?
    | none => r.services[name]?

def addLink (name : String) (target : Target) (r : Root) : Root :=
  if name = ".current" then { r with current := some target }
  else match stripPrefix ".current-" name with
    | some key => { r with pending := r.pending.insert key target }
    | none => { r with services := r.services.insert name target }

/-- The generations that pruning keeps: the active one and the newest, three in all. -/
def kept (active : String) (generations : List String) : List String :=
  generations.foldl (fun keep name =>
    if keep.length = 3 ∨ name ∈ keep then keep else name :: keep) [active]

def generationNames (r : Root) : List String :=
  (r.generations.keys.filter fun name => validGeneration name).reverse

end Root

abbrev Deploy := Faulty Roots DeployError

namespace Deploy

/-- One change to a root. -/
def change (side : Side) (f : Root → Root) : Deploy Unit := Faulty.op .io (·.update side f)

/-- An operation that leaves no trace here: reading, locking, syncing, setting permissions. -/
def touch : Deploy Unit := Faulty.op .io id

def root (side : Side) : Deploy Root := do
  touch
  return (← Faulty.read).at side

/-- `remove_dir_all` of a generation, which may stop half way. -/
def removeGeneration (side : Side) (id : String) : Deploy Unit := do
  change side fun r => { r with
    generations := r.generations.modify id fun generation => { generation with whole := false } }
  change side fun r => { r with generations := r.generations.erase id }

def discard (side : Side) (current : Option String) (id : String) : Deploy Unit := do
  change side fun r => { r with pending := r.pending.erase id }
  let r ← root side
  Faulty.doIf (current ≠ some id ∧ id ∈ r.generations) (removeGeneration side id)

def committed : Side → Deploy (Option String)
  | .secrets => pure none
  | .publicInfo => do Faulty.ofExcept (← root .secrets).currentGeneration

def forward (side : Side) (id : String) : Deploy Unit := do
  let r ← root side
  Faulty.refuseIf (id ∉ r.generations) (.io "No such file or directory")
  change side (Root.promote id)
  touch

def recoverPending (side : Side) : Deploy Unit := do
  let committed ← committed side
  let current ← Faulty.ofExcept (← root side).currentGeneration
  let ids ← Faulty.ofExcept ((← root side).pendingPointers side)
  let uncommitted := ids.filter fun id => committed ≠ some id
  Faulty.each (discard side current) uncommitted
  Faulty.doIf (uncommitted ≠ []) (do touch; touch)
  match committed with
  | some id => Faulty.doIf (id ∈ ids) (forward side id)
  | none => pure ()

def recoverLocked (side : Side) : Deploy Unit :=
  (recoverPending side).mapError (DeployError.during ("recovering " ++ side.path))

/-- Locks a root that exists; says whether it does. -/
def lockExisting (side : Side) : Deploy Bool := do
  let r ← root side
  Faulty.doIf (r.present = true) touch
  return r.present

def recover : Deploy Unit := do
  let secrets ← lockExisting .secrets
  let publicInfo ← lockExisting .publicInfo
  Faulty.doIf (secrets = true) (recoverLocked .secrets)
  Faulty.doIf (publicInfo = true) (recoverLocked .publicInfo)

def recoverAlone (side : Side) : Deploy Unit := do
  let present ← lockExisting side
  Faulty.doIf (present = true) (recoverLocked side)

def prepareRoot (side : Side) : Deploy Unit := do
  let r ← root side
  Faulty.doIf (r.present = false) (change side fun r => { r with present := true })
  touch

def lockDeployments : Deploy Unit := touch

def prepareStore (side : Side) : Deploy Unit := do
  let r ← root side
  Faulty.doIf (r.store = false) (change side fun r => { r with store := true })
  Faulty.ofExcept (← root side).validateCurrent

def createStaging (side : Side) (id : String) : Deploy Unit := do
  let r ← root side
  Faulty.refuseIf (id ∈ r.staging) (.io "File exists")
  change side fun r => { r with staging := r.staging.insert id }
  touch

def stageEntries (p : Platform) : List ValidatedSecret → Tree → Deploy Tree
  | [], tree => pure tree
  | entry :: rest, tree => do
    touch
    stageEntries p rest (← Faulty.ofExcept (stageEntry p entry tree))

def publish (side : Side) (id : String) (tree : Tree) : Deploy Unit := do
  let r ← root side
  Faulty.refuseIf (id ∈ r.generations) (.io "Directory not empty")
  change side fun r => { r with
    staging := r.staging.erase id, generations := r.generations.insert id { tree } }
  touch

def notExpectedLink (service : String) : DeployError :=
  .invalid ("public service path is not the expected link: " ++ service)

def prepareServiceLink (side : Side) (service : String) : Deploy Unit := do
  Faulty.refuseIf (service = ".generations" ∨ service = ".deploy-lock") (notExpectedLink service)
  match (← root side).link? service with
  | some target => Faulty.refuseIf (target ≠ .service service) (notExpectedLink service)
  | none => change side (Root.addLink service (.service service))

def pointPending (side : Side) (id : String) : Deploy Unit := do
  let r ← root side
  Faulty.refuseIf (id ∈ r.pending) (.io "File exists")
  change side fun r => { r with pending := r.pending.insert id (.generation id) }
  touch

/-- The generation's tree: the current one cloned, the entries staged, the versions
recorded. -/
def stage (p : Platform) (side : Side) (entries : List ValidatedSecret) : Deploy Tree := do
  let base ← Faulty.ofExcept ((← root side).cloneCurrent p)
  let tree ← stageEntries p entries base
  let versions ← Faulty.ofExcept ((← root side).currentVersions p)
  Faulty.ofExcept (stageVersions p versions entries tree)

def prepare (p : Platform) (side : Side) (entries : List ValidatedSecret) (id : String) :
    Deploy (BTreeMap String String) := do
  prepareStore side
  let previous ← Faulty.ofExcept ((← root side).currentVersions p)
  createStaging side id
  let tree ← stage p side entries
  touch
  publish side id tree
  Faulty.each (prepareServiceLink side) (entries.map (·.spec.service)).dedup
  touch
  pointPending side id
  touch
  return previous

def switch (side : Side) (id : String) : Deploy Unit := do
  change side (Root.promote id)
  touch

def prune (side : Side) (active : String) : Deploy Unit := do
  let r ← root side
  Faulty.each (fun id => change side fun r => { r with staging := r.staging.erase id })
    r.staging.toList
  let keep := Root.kept active r.generationNames
  Faulty.each (removeGeneration side) (r.generationNames.filter (· ∉ keep))
  touch

def publishAlone (p : Platform) (side : Side) (entries : List ValidatedSecret) (id : String) :
    Deploy Unit := do
  let result ← Faulty.attempt do
    let _ ← prepare p side entries id
    switch side id
    prune side id
  match result with
  | .ok _ => pure ()
  | .error e => do
    let _ ← (recoverLocked side).attempt
    Faulty.throw (e.during side.publishing)

/-- Deploys into one root alone if `proceed` approves it as it is under the lock. -/
def deployInner (p : Platform) (side : Side) (batch : ResolvedBatch) (id : String)
    (proceed : Root → Except DeployError Bool) (published : Root → Except DeployError Unit) :
    Deploy Bool := do
  let entries ← Faulty.ofExcept (validate batch)
  prepareRoot side
  lockDeployments
  recoverLocked side
  match ← Faulty.ofExcept (proceed (← root side)) with
  | false => return false
  | true => do
    publishAlone p side entries id
    Faulty.ofExcept (published (← root side))
    return true

def deploy (p : Platform) (side : Side) (batch : ResolvedBatch) (id : String) : Deploy Unit := do
  let _ ← deployInner p side batch id (fun _ => .ok true) (fun _ => .ok ())

def validated (batch : Option ResolvedBatch) (side : Side) :
    Except DeployError (Option (List ValidatedSecret)) :=
  match batch with
  | some (spec :: rest) =>
    ((validate (spec :: rest)).map some).mapError (DeployError.during side.publishing)
  | _ => .ok none

/-- The public root is prepared before anything is committed. -/
def preparePublic (p : Platform) (entries : Option (List ValidatedSecret)) (id : String) :
    Deploy (BTreeMap String String) :=
  match entries with
  | some entries => (prepare p .publicInfo entries id).mapError (·.during Side.publicInfo.publishing)
  | none => pure ∅

/-- The secret root's switch is the commit point. -/
def commitSecrets (p : Platform) (entries : Option (List ValidatedSecret)) (id : String)
    (before : BTreeMap String String) : Deploy (BTreeMap String String) :=
  match entries with
  | some entries => do
    let versions ← (prepare p .secrets entries id).mapError (·.during Side.secrets.publishing)
    (switch .secrets id).mapError (·.during Side.secrets.publishing)
    return before.insertMany versions
  | none => pure before

def publishBoth (p : Platform) (secrets publicInfo : Option (List ValidatedSecret))
    (id : String) : Deploy (BTreeMap String String) := do
  let before ← preparePublic p publicInfo id
  let previous ← commitSecrets p secrets id before
  Faulty.doIf (publicInfo.isSome = true)
    ((switch .publicInfo id).mapError (·.during Side.publicInfo.publishing))
  Faulty.doIf (secrets.isSome = true)
    ((prune .secrets id).mapError (·.during Side.secrets.publishing))
  Faulty.doIf (publicInfo.isSome = true)
    ((prune .publicInfo id).mapError (·.during Side.publicInfo.publishing))
  return previous

/-- Both roots are there, locked and recovered. -/
def openBoth : Deploy Unit := do
  (prepareRoot .secrets).mapError (·.during Side.secrets.publishing)
  (prepareRoot .publicInfo).mapError (·.during Side.publicInfo.publishing)
  lockDeployments.mapError (·.during Side.secrets.publishing)
  lockDeployments.mapError (·.during Side.publicInfo.publishing)
  recoverLocked .secrets
  recoverLocked .publicInfo

def together (p : Platform) (secretsBatch publicBatch : Option ResolvedBatch) (id : String) :
    Deploy (BTreeMap String String) := do
  let secrets ← Faulty.ofExcept (validated secretsBatch .secrets)
  let publicInfo ← Faulty.ofExcept (validated publicBatch .publicInfo)
  Faulty.refuseIf (secrets.isNone ∧ publicInfo.isNone) (.invalid "deployment is empty")
  openBoth
  match ← (publishBoth p secrets publicInfo id).attempt with
  | .ok previous => return previous
  | .error e => do
    let _ ← (recoverLocked .secrets).attempt
    let _ ← (recoverLocked .publicInfo).attempt
    Faulty.throw e

end Deploy

end NixSecrets
