import NixSecrets.SchemaWalk

namespace NixSecrets.Inventory

def validLabel (value : String) : Bool :=
  trim value.toList ≠ [] && value.utf8ByteSize ≤ 256 && !value.toList.any isControl

def SecretPresentation.valid (presentation : SecretPresentation) : Bool :=
  validLabel presentation.facing && validLabel presentation.valueType &&
    presentation.explanation.utf8ByteSize ≤ 2048 && !presentation.explanation.toList.any isControl

namespace SecretIdentity

/-- The user is what stands between the two ends of the namespace, by position. -/
def namespaceUser (space : String) : Checked SchemaError (List Char) :=
  Checked.orPanic (sliceBytes space.toList 5 (utf8Length space.toList - utf8Length "-services".toList))

def inScope (identity : SecretIdentity) (space : String) : Checked SchemaError Bool :=
  if space = "services" then .ok (identity.scope = "system" && identity.user.isNone)
  else if isUserNamespace space then
    if identity.scope = "user" then do
      let user ← namespaceUser space
      return identity.user = some (String.ofList user)
    else .ok false
  else .ok false

def labels (identity : SecretIdentity) : List String :=
  [identity.service, identity.responsibility, identity.name] ++ identity.space.toList

def valid (identity : SecretIdentity) (path : SecretPath) : Checked SchemaError Bool := do
  let host ← Checked.index path.parts 0
  if identity.host = host then do
    let inScope ← identity.inScope (← Checked.index path.parts 1)
    return inScope && identity.labels.all validLabel
  else return false

end SecretIdentity

abbrev IdentityIndex := List (SecretIdentity × SecretPath)

def insertIdentity (index : IdentityIndex) (leaf : LeafSpec) : Checked SchemaError IdentityIndex :=
  match leaf.identity with
  | none => .ok index
  | some identity => do
    let stable ← SecretPath.new leaf.path.parts
    let valid ← identity.valid leaf.path
    Checked.refuseIf (valid = false) (.invalidValueDefinition stable "invalid semantic identity")
    Checked.refuseIf (leaf.presentation.any (!·.valid))
      (.invalidValueDefinition stable "invalid presentation metadata")
    Checked.refuseIf (identity ∈ index.map Prod.fst)
      (.invalidValueDefinition stable "duplicate semantic identity")
    return (identity, stable) :: index

def Schema.identityIndex (schema : Schema) : Checked SchemaError IdentityIndex :=
  schema.walkAll insertIdentity []

/-- The ends of a user's namespace overlap in one name only. -/
theorem userNamespace_cases {space : String} (h : isUserNamespace space = true) :
    space = "user-services" ∨
      ∃ user : List Char, space.toList = "user-".toList ++ (user ++ "-services".toList) := by
  rw [isUserNamespace, Bool.and_eq_true, List.isPrefixOf_iff_prefix, List.isSuffixOf_iff_suffix] at h
  obtain ⟨⟨rest, hfront⟩, ⟨front, hback⟩⟩ := h
  rcases List.append_eq_append_iff.mp (hfront.trans hback.symm) with ⟨user, hu, hr⟩ | ⟨shared, hu, hr⟩
  · refine Or.inr ⟨user, ?_⟩
    rw [← hfront, hr]
  · have hends : ∀ n < 6, ("user-".toList.drop n).isPrefixOf "-services".toList →
        "user-".toList.drop n = [] ∨ "user-".toList.drop n = ['-'] := by decide
    have hlength := congrArg List.length hu
    have hdrop : "user-".toList.drop front.length = shared := by rw [hu, List.drop_left]
    have hshared := hends front.length (by simp at hlength; omega)
      (by rw [hdrop, hr, List.isPrefixOf_iff_prefix]; exact List.prefix_append shared rest)
    rw [hdrop] at hshared
    rcases hshared with rfl | rfl
    · refine Or.inr ⟨[], ?_⟩
      rw [← hfront, List.nil_append] at *
      rw [hr]
    · left
      have hrest : rest = "services".toList := (List.cons.inj hr).2.symm
      apply String.toList_inj.mp
      rw [← hfront, hrest]
      decide

namespace SecretIdentity

theorem namespaceUser_ok {space : String} {user : List Char}
    (h : space.toList = "user-".toList ++ (user ++ "-services".toList)) :
    namespaceUser space = .ok user := by
  have hfront : utf8Length "user-".toList = 5 := by decide
  have hstop : utf8Length space.toList - utf8Length "-services".toList = 5 + utf8Length user := by
    rw [h, utf8Length_append, utf8Length_append, hfront]
    omega
  have hslice := sliceBytes_append "user-".toList user "-services".toList
  rw [← h, hfront] at hslice
  rw [namespaceUser, hstop, hslice]
  rfl

theorem namespaceUser_overlap : namespaceUser "user-services" = .error .panicked := by decide

/-- The scope of an identity is that of the namespace it stands in. -/
def Scoped (identity : SecretIdentity) (space : String) : Prop :=
  (space = "services" ∧ identity.scope = "system" ∧ identity.user = none) ∨
    ∃ user, space = "user-" ++ user ++ "-services" ∧ identity.scope = "user" ∧ identity.user = some user

/-- The namespace whose two ends overlap, under an identity of a user. -/
def Overlaps (identity : SecretIdentity) (space : String) : Prop :=
  space = "user-services" ∧ identity.scope = "user"

theorem user_space_toList {space user : String} (h : space = "user-" ++ user ++ "-services") :
    space.toList = "user-".toList ++ (user.toList ++ "-services".toList) := by
  rw [h, String.toList_append, String.toList_append, List.append_assoc]

theorem isUserNamespace_of {space : String} {user : List Char}
    (h : space.toList = "user-".toList ++ (user ++ "-services".toList)) :
    isUserNamespace space = true := by
  rw [isUserNamespace, Bool.and_eq_true, List.isPrefixOf_iff_prefix, List.isSuffixOf_iff_suffix, h]
  constructor
  · exact List.prefix_append _ _
  · rw [← List.append_assoc]
    exact List.suffix_append _ _

theorem inScope_answers {identity : SecretIdentity} {space : String} :
    (identity.inScope space).Answers ↔ ¬ identity.Overlaps space := by
  unfold inScope Overlaps
  by_cases hservices : space = "services"
  · rw [if_pos hservices]
    refine iff_of_true (Checked.answers_ok _) ?_
    rintro ⟨hspace, _⟩
    rw [hservices] at hspace
    exact absurd hspace (by decide)
  · rw [if_neg hservices]
    by_cases huser : isUserNamespace space = true
    · rw [if_pos huser]
      by_cases hscope : identity.scope = "user"
      · rw [if_pos hscope]
        rcases userNamespace_cases huser with rfl | ⟨user, hspace⟩
        · rw [namespaceUser_overlap]
          exact iff_of_false (fun h => h rfl) (fun h => h ⟨rfl, hscope⟩)
        · rw [namespaceUser_ok hspace]
          refine iff_of_true (Checked.answers_pure _) ?_
          rintro ⟨rfl, _⟩
          have hlength := congrArg List.length hspace
          simp at hlength
      · rw [if_neg hscope]
        exact iff_of_true (Checked.answers_ok _) fun h => hscope h.2
    · rw [if_neg huser]
      refine iff_of_true (Checked.answers_ok _) ?_
      rintro ⟨rfl, _⟩
      exact huser (by decide)

theorem inScope_ok {identity : SecretIdentity} {space : String} :
    identity.inScope space = .ok true ↔ identity.Scoped space := by
  constructor
  · intro h
    unfold inScope at h
    split at h
    next hservices =>
      left
      simpa [hservices] using h
    next =>
      split at h
      next huser =>
        split at h
        next hscope =>
          obtain ⟨user, hslice, h⟩ := Checked.bind_ok h
          rcases userNamespace_cases huser with rfl | ⟨user', hspace⟩
          · rw [namespaceUser_overlap] at hslice
            cases hslice
          · rw [namespaceUser_ok hspace] at hslice
            cases hslice
            refine Or.inr ⟨String.ofList user, ?_, hscope, of_decide_eq_true (Except.ok.inj h)⟩
            have hback : (String.ofList user).toList = user := String.toList_ofList
            apply String.toList_inj.mp
            rw [hspace, user_space_toList rfl, hback]
        next => cases h
      next => cases h
  · rintro (⟨rfl, hscope, huser⟩ | ⟨user, hspace, hscope, huser⟩)
    · simp [inScope, hscope, huser]
    · have htext := user_space_toList hspace
      have hne : space ≠ "services" := by
        rintro rfl
        have hlength := congrArg List.length htext
        simp at hlength
      rw [inScope, if_neg hne, if_pos (isUserNamespace_of htext), if_pos hscope,
        namespaceUser_ok htext, Checked.ok_bind, huser, String.ofList_toList]
      exact congrArg _ (decide_eq_true rfl)

/-- The identity belongs to the path it stands under, and its labels are in order. -/
structure Fits (identity : SecretIdentity) (path : SecretPath) : Prop where
  host : path.parts[0]? = some identity.host
  scope : ∀ space, path.parts[1]? = some space → identity.Scoped space
  labels : identity.labels.all validLabel = true

end SecretIdentity

theorem validateComponent_answers (component : String) : (validateComponent component).Answers := by
  unfold validateComponent
  split
  next => exact Checked.answers_ok ()
  next => exact Checked.answers_refuse _

theorem validateNamespace_answers (space : String) : (validateNamespace space).Answers := by
  unfold validateNamespace
  split
  next => exact Checked.answers_ok ()
  next => exact Checked.answers_refuse _

namespace SecretPath

theorem new_answers (parts : List String) : (new parts).Answers := by
  unfold new
  apply Checked.answers_check
  intro hlength
  apply Checked.answers_seq (Checked.answers_each fun part _ => validateComponent_answers part)
  intro _
  apply Checked.answers_seq (Checked.answers_index.mpr (by omega))
  intro space
  exact Checked.answers_seq (validateNamespace_answers space) fun _ => Checked.answers_pure _

theorem parse_answers (path : String) : (parse path).Answers := new_answers _

theorem new_ok {parts : List String} {path : SecretPath} (h : new parts = .ok path) :
    path = ⟨parts⟩ ∧ path.Made ∧ 4 ≤ parts.length := by
  have hmade := h
  obtain ⟨_, hlength, h⟩ := Checked.bind_ok h
  obtain ⟨_, _, h⟩ := Checked.bind_ok h
  obtain ⟨_, _, h⟩ := Checked.bind_ok h
  obtain ⟨_, _, h⟩ := Checked.bind_ok h
  have hshort := Checked.refuseIf_ok hlength
  cases h
  exact ⟨rfl, hmade, by omega⟩

theorem Made.length {path : SecretPath} (h : path.Made) : 4 ≤ path.parts.length := (new_ok h).2.2

end SecretPath

/-- The leaf stands in the namespace whose ends overlap, under an identity of a user of its host. -/
def LeafSpec.Overlaps (leaf : LeafSpec) : Prop :=
  ∃ identity, leaf.identity = some identity ∧ leaf.path.Made ∧
    leaf.path.parts[0]? = some identity.host ∧ leaf.path.parts[1]? = some "user-services" ∧
    identity.scope = "user"

/-- The leaf has no identity, or one that fits. -/
def LeafSpec.Placed (leaf : LeafSpec) : Prop :=
  ∀ identity, leaf.identity = some identity →
    leaf.path.Made ∧ identity.Fits leaf.path ∧ leaf.presentation.any (!·.valid) = false

namespace SecretIdentity

variable {identity : SecretIdentity} {path : SecretPath}

theorem valid_answers (hmade : path.Made) : (identity.valid path).Answers ↔
    ¬ (path.parts[0]? = some identity.host ∧ path.parts[1]? = some "user-services" ∧
      identity.scope = "user") := by
  have hlength := hmade.length
  have hhost : path.parts[0]? = some path.parts[0] := List.getElem?_eq_getElem (by omega)
  have hspace : path.parts[1]? = some path.parts[1] := List.getElem?_eq_getElem (by omega)
  simp only [valid, Checked.index, hhost, hspace, Checked.orPanic, Checked.ok_bind, Option.some.injEq]
  by_cases hsame : identity.host = path.parts[0]
  · rw [if_pos hsame]
    have hseq : (identity.inScope path.parts[1] >>= fun inScope =>
        pure (inScope && identity.labels.all validLabel)).Answers ↔
        (identity.inScope path.parts[1]).Answers :=
      ⟨fun h => (Checked.answers_bind.mp h).1, fun h =>
        Checked.answers_seq h fun _ => Checked.answers_pure _⟩
    rw [hseq, inScope_answers, Overlaps]
    simp [hsame]
  · rw [if_neg hsame]
    exact iff_of_true (Checked.answers_pure _) fun h => hsame h.1.symm

theorem valid_ok (hmade : path.Made) : identity.valid path = .ok true ↔ identity.Fits path := by
  have hlength := hmade.length
  have hhost : path.parts[0]? = some path.parts[0] := List.getElem?_eq_getElem (by omega)
  have hspace : path.parts[1]? = some path.parts[1] := List.getElem?_eq_getElem (by omega)
  simp only [valid, Checked.index, hhost, hspace, Checked.orPanic, Checked.ok_bind]
  constructor
  · intro h
    split at h
    next hsame =>
      obtain ⟨scope, hscope, h⟩ := Checked.bind_ok h
      obtain ⟨rfl, hlabels⟩ := Bool.and_eq_true_iff.mp (Except.ok.inj h)
      refine ⟨by rw [hhost, hsame], fun space hfound => ?_, hlabels⟩
      rw [hspace] at hfound
      cases hfound
      exact inScope_ok.mp hscope
    next => cases h
  · intro hfits
    have hfound := hfits.host
    rw [hhost] at hfound
    rw [if_pos (Option.some.inj hfound).symm, inScope_ok.mpr (hfits.scope _ hspace), Checked.ok_bind,
      hfits.labels]
    rfl

end SecretIdentity

theorem insertIdentity_answers {index : IdentityIndex} {leaf : LeafSpec} :
    (insertIdentity index leaf).Answers ↔ ¬ leaf.Overlaps := by
  unfold insertIdentity LeafSpec.Overlaps
  cases hidentity : leaf.identity with
  | none => simp [Checked.answers_ok]
  | some identity =>
    dsimp only
    cases hnew : SecretPath.new leaf.path.parts with
    | error stop =>
      have hstop := SecretPath.new_answers leaf.path.parts
      rw [hnew] at hstop
      refine iff_of_true (fun hpanic => hstop (congrArg _ (Except.error.inj hpanic))) ?_
      rintro ⟨_, _, hmade, _⟩
      rw [SecretPath.Made, hnew] at hmade
      cases hmade
    | ok stable =>
      obtain ⟨rfl, hmade, _⟩ := SecretPath.new_ok hnew
      have hvalid := @SecretIdentity.valid_answers identity leaf.path hmade
      rw [Checked.ok_bind]
      constructor
      · rintro h ⟨_, hsome, _, hover⟩
        cases hsome
        exact hvalid.mp (Checked.answers_bind.mp h).1 hover
      · intro h
        apply Checked.answers_seq (hvalid.mpr fun hover => h ⟨identity, rfl, hmade, hover⟩)
        intro valid
        apply Checked.answers_check
        intro _
        apply Checked.answers_check
        intro _
        apply Checked.answers_check
        exact fun _ => Checked.answers_pure _

theorem insertIdentity_ok {index index' : IdentityIndex} {leaf : LeafSpec} :
    insertIdentity index leaf = .ok index' ↔
      leaf.Placed ∧ (∀ identity, leaf.identity = some identity → identity ∉ index.map Prod.fst) ∧
      index' = (leaf.identity.map (·, leaf.path)).toList ++ index := by
  unfold insertIdentity LeafSpec.Placed
  cases hidentity : leaf.identity with
  | none =>
    simp only [reduceCtorEq, false_implies, implies_true, true_and, Option.map_none,
      Option.toList_none, List.nil_append, Except.ok.injEq]
    exact eq_comm
  | some identity =>
    simp only [Option.some.injEq, forall_eq', Option.map_some, Option.toList_some]
    constructor
    · intro h
      obtain ⟨stable, hnew, h⟩ := Checked.bind_ok h
      obtain ⟨rfl, hmade, _⟩ := SecretPath.new_ok hnew
      obtain ⟨valid, hvalid, h⟩ := Checked.bind_ok h
      obtain ⟨_, hfits, h⟩ := Checked.bind_ok h
      obtain ⟨_, hpresentation, h⟩ := Checked.bind_ok h
      obtain ⟨_, hfresh, h⟩ := Checked.bind_ok h
      have hmatched : valid = true := by simpa using Checked.refuseIf_ok hfits
      have hgood := Checked.refuseIf_ok hpresentation
      rw [hmatched] at hvalid
      cases h
      exact ⟨⟨hmade, (SecretIdentity.valid_ok hmade).mp hvalid, Bool.eq_false_iff.mpr hgood⟩,
        Checked.refuseIf_ok hfresh, rfl⟩
    · rintro ⟨⟨hmade, hfits, hpresentation⟩, hfresh, rfl⟩
      have hnew : SecretPath.new leaf.path.parts = .ok leaf.path := hmade
      rw [hnew, Checked.ok_bind, (SecretIdentity.valid_ok hmade).mpr hfits, Checked.ok_bind,
        Checked.refuseIf_of_not _ (by simp), Checked.ok_bind,
        Checked.refuseIf_of_not _ (by simp [hpresentation]), Checked.ok_bind,
        Checked.refuseIf_of_not _ hfresh, Checked.ok_bind]
      rfl

end NixSecrets.Inventory
