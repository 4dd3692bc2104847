import NixSecrets.ReadyWaiter

namespace NixSecrets.Waiter

open Relation

section

variable (getfacl : File → AclOutput)

variable (contents : String → Tree)

/-- What a deployment or a recovery does to the root, one change at a time; a name always stands for one
generation. -/
inductive Change : Root → Root → Prop
  | made (r : Root) : Change r { r with present := true }
  | stored (r : Root) : Change r { r with store := true }
  | staged (r : Root) (staging : BTreeSet String) : Change r { r with staging }
  | published (r : Root) (staging : BTreeSet String) (id : String) :
    Change r { r with staging, generations := r.generations.insert id { tree := contents id } }
  | linked (r : Root) (service : String) : Change r (r.addLink service (.service service))
  | pointed (r : Root) (id : String) : Change r { r with pending := r.pending.insert id (.generation id) }
  | unlinked (r : Root) (id : String) : Change r { r with pending := r.pending.erase id }
  | promoted (r : Root) (id : String) : Change r (r.promote id)
  | broken (r : Root) (id : String) : Change r { r with
      generations := r.generations.modify id fun generation => { generation with whole := false } }
  | erased (r : Root) (id : String) : Change r { r with generations := r.generations.erase id }

/-- The system calls of a poll are interleaved with any changes that deployments make. -/
structure Interleaved (looks : Looks) : Prop where
  start : ReflTransGen (Change contents) {} (looks.seen 0).root
  next : ∀ count, ReflTransGen (Change contents) (looks.seen count).root (looks.seen (count + 1)).root

end

section

variable {getfacl : File → AclOutput} {contents : String → Tree}

theorem Change.holds {r r' : Root} (h : Change contents r r')
    (hr : r.Holds fun id tree => tree = contents id) : r'.Holds fun id tree => tree = contents id := by
  cases h with
  | made => exact hr.same rfl
  | stored => exact hr.same rfl
  | staged => exact hr.same rfl
  | published staging id => exact hr.inserted rfl staging
  | linked service =>
    apply hr.same
    unfold Root.addLink
    split
    next => rfl
    next => split <;> rfl
  | pointed => exact hr.same rfl
  | unlinked => exact hr.same rfl
  | promoted id => exact hr.same (Root.promote_generations id r)
  | broken id => exact hr.broken id
  | erased id => exact hr.erased id

theorem changes_hold {r r' : Root} (h : ReflTransGen (Change contents) r r')
    (hr : r.Holds fun id tree => tree = contents id) : r'.Holds fun id tree => tree = contents id := by
  induction h with
  | refl => exact hr
  | tail _ hchange ih => exact hchange.holds ih

/-- Whenever a name is in use, it stands for its generation. -/
theorem Interleaved.holds {looks : Looks} (h : Interleaved contents looks) (count : Nat) :
    (looks.seen count).root.Holds fun id tree => tree = contents id := by
  induction count with
  | zero =>
    apply changes_hold h.start
    intro id g hid
    rw [Std.ExtTreeMap.getElem?_empty] at hid
    cases hid
  | succ count ih => exact changes_hold (h.next count) ih

end

section

variable {looks : Looks} {α : Type}

theorem look_ok {failure : String} {f : World → α} {a : α} {count count' : Nat}
    (h : look looks failure f count = (.ok a, count')) : a = f (looks.seen count) ∧ count' = count + 1 := by
  unfold look at h
  split at h
  next => cases h
  next =>
    cases h
    exact ⟨rfl, rfl⟩

theorem current_of_entry {w : World} {target : Target} (h : w.entry ".current" = some (.link target)) :
    w.root.current = some target := by
  unfold World.entry at h
  split at h
  next => cases h
  next =>
    obtain ⟨found, hfound, hlink⟩ := Option.map_eq_some_iff.mp h
    cases hlink
    rwa [Root.link?, if_pos rfl] at hfound

theorem generationOf_some {target : Target} {id : String} (h : generationOf target = some id) :
    target = .generation id := by
  unfold generationOf at h
  split at h
  next other =>
    split at h
    next =>
      cases h
      rfl
    next => cases h
  next => cases h

theorem realDirectory_ok {path : String} {isDirectory : World → Bool} {real : Bool} {count count' : Nat}
    (h : realDirectory looks path isDirectory count = (.ok real, count')) :
    real = isDirectory (looks.seen count) ∧ count' = count + 1 := look_ok h

theorem pointedGeneration_ok {id : String} {count count' : Nat}
    (h : pointedGeneration looks count = (.ok (some id), count')) :
    ∃ moment, count ≤ moment ∧ moment < count' ∧ (looks.seen moment).root.current = some (.generation id) := by
  obtain ⟨first, count₁, hfirst, h⟩ := run_bind_eq_ok h
  obtain ⟨_, rfl⟩ := look_ok hfirst
  split at h
  next => cases h
  next => cases h
  next =>
    obtain ⟨second, count₂, hsecond, h⟩ := run_bind_eq_ok h
    obtain ⟨hentry, rfl⟩ := look_ok hsecond
    split at h
    next target =>
      cases hnamed : generationOf target with
      | none =>
        simp only [hnamed] at h
        cases h
      | some named =>
        simp only [hnamed] at h
        obtain ⟨real, count₃, hreal, h⟩ := run_bind_eq_ok h
        obtain ⟨_, rfl⟩ := realDirectory_ok hreal
        obtain ⟨hresult, hcount⟩ := Prod.mk.inj h
        have hnamed' : (if real = true then some named else none) = some id := Except.ok.inj hresult
        split at hnamed'
        next =>
          cases hnamed'
          have hend : count + 1 + 1 + 1 = count' := hcount
          refine ⟨count + 1, Nat.le_succ count, by omega, ?_⟩
          rw [current_of_entry hentry.symm, generationOf_some hnamed]
        next => cases hnamed'
    next => cases h

theorem currentGeneration_ok {id : String} {count count' : Nat}
    (h : currentGeneration looks count = (.ok (some id), count')) :
    ∃ moment, count ≤ moment ∧ moment < count' ∧ (looks.seen moment).root.current = some (.generation id) := by
  obtain ⟨parent, count₁, hparent, h⟩ := run_bind_eq_ok h
  obtain ⟨_, rfl⟩ := realDirectory_ok hparent
  split at h
  next => cases h
  next =>
    obtain ⟨present, count₂, hpresent, h⟩ := run_bind_eq_ok h
    obtain ⟨_, rfl⟩ := realDirectory_ok hpresent
    split at h
    next => cases h
    next =>
      obtain ⟨store, count₃, hstore, h⟩ := run_bind_eq_ok h
      obtain ⟨_, rfl⟩ := realDirectory_ok hstore
      split at h
      next => cases h
      next =>
        obtain ⟨moment, hlow, hhigh, hcurrent⟩ := pointedGeneration_ok h
        exact ⟨moment, by omega, hhigh, hcurrent⟩

variable {getfacl : File → AclOutput} {contents : String → Tree}

end

/-- The changes of one deployment that adds a service's first generation or its next. -/
def deployed (contents : String → Tree) (id : String) (service : String) (r : Root) : Root :=
  let r := { r with present := true }
  let r := { r with store := true }
  let r := { r with staging := r.staging, generations := r.generations.insert id { tree := contents id } }
  let r := r.addLink service (.service service)
  let r := { r with pending := r.pending.insert id (.generation id) }
  r.promote id

def firstId : String := generationId 1700000000000000000 4242
def secondId : String := generationId 1700000000000000001 4242

def placed (mode : UInt32) : File := ⟨[1], 0, 0, mode, none⟩

def declared (secret : String) : ExpectedSecret := ⟨"web", "service", secret, 0, 0, 0o400, [], none⟩

end NixSecrets.Waiter
