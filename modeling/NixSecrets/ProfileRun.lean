import NixSecrets.ProfileUsable

namespace NixSecrets.Profiles

open Faulty

def run (toml : Toml) (calls : List ProfileCall) (disk : ProfileDisk) : ProfileDisk :=
  calls.foldl (fun disk call => (call.exec toml disk).2) disk

/-- Every call of the run meets `P` where it is made. -/
def AlongRun (toml : Toml) (P : ProfileCall → ProfileDisk → Prop) : List ProfileCall → ProfileDisk → Prop
  | [], _ => True
  | call :: calls, disk => P call disk ∧ AlongRun toml P calls (call.exec toml disk).2

theorem alongRun_congr {toml : Toml} {P Q : ProfileCall → ProfileDisk → Prop}
    (h : ∀ call disk, P call disk ↔ Q call disk) (calls : List ProfileCall) (disk : ProfileDisk) :
    AlongRun toml P calls disk ↔ AlongRun toml Q calls disk := by
  induction calls generalizing disk with
  | nil => exact Iff.rfl
  | cons call calls ih => exact and_congr (h call disk) (ih _)

theorem alongRun_append {toml : Toml} {P : ProfileCall → ProfileDisk → Prop}
    (before after : List ProfileCall) (disk : ProfileDisk) :
    AlongRun toml P (before ++ after) disk ↔
      AlongRun toml P before disk ∧ AlongRun toml P after (run toml before disk) := by
  induction before generalizing disk with
  | nil => simp [AlongRun, run]
  | cons call calls ih =>
    show P call disk ∧ AlongRun toml P (calls ++ after) _ ↔ _
    rw [ih, ← and_assoc]
    rfl

/-- Every operation of a run keeps the file usable exactly when each one's text fits. -/
theorem profiles_stay_usable (toml : Toml) (htoml : toml.RoundTrips) (calls : List ProfileCall) :
    AlongRun toml (ProfileCall.KeepsUsable toml) calls {} ↔
      AlongRun toml (ProfileCall.Fits toml) calls {} :=
  alongRun_congr (keepsUsable_iff htoml) calls {}

def profileName (k : Nat) : String :=
  String.ofList ['p', Nat.digitChar (k / 10), Nat.digitChar (k % 10)]

def plain : ViewProfile := { treeOrder := [], viewFilter := .all, humanOnly := true }

def numberedProfiles : Nat → BTreeMap String ViewProfile
  | 0 => ∅
  | k + 1 => (numberedProfiles k).insert (profileName k) plain

def versionLine : String := "version = 1\n"

def tableStart : String := "\n[profiles."

def plainText : String := "]\ntree_order = []\nview_filter = \"all\"\nhuman_only = true\n"

def facetsEnd : String := ".facets]\n"

def profileText (k : Nat) : List Char :=
  tableStart.toList ++ (profileName k).toList ++ plainText.toList ++ tableStart.toList ++
    (profileName k).toList ++ facetsEnd.toList

def numberedText (k : Nat) : String :=
  String.ofList (versionLine.toList ++ (List.range k).flatMap profileText)

/-- The library on the documents of up to 65 plain profiles. -/
def numbered : Toml where
  encode document :=
    ((List.range 66).find? fun k => document = ⟨1, numberedProfiles k⟩).elim
      (.error "unsupported document") fun k => .ok (numberedText k)
  decode content :=
    ((List.range 66).find? fun k => content = numberedText k).elim
      (.error "TOML parse error") fun k => .ok ⟨1, numberedProfiles k⟩
  hash content := content.length

theorem find_only {p : Nat → Bool} {xs : List Nat} {k : Nat} (hk : k ∈ xs) (hp : p k = true)
    (honly : ∀ j ∈ xs, p j = true → j = k) : xs.find? p = some k := by
  cases hfind : xs.find? p with
  | none => exact absurd hp (List.find?_eq_none.mp hfind k hk)
  | some j => rw [honly j (List.mem_of_find?_eq_some hfind) (List.find?_some hfind)]

theorem digitChar_inj : ∀ a < 10, ∀ b < 10, Nat.digitChar a = Nat.digitChar b → a = b := by decide

theorem profileName_inj {i j : Nat} (hi : i < 100) (hj : j < 100)
    (h : profileName i = profileName j) : i = j := by
  have hlist := String.ofList_injective h
  simp only [List.cons.injEq, true_and, and_true] at hlist
  have htens := digitChar_inj (i / 10) (by omega) (j / 10) (by omega) hlist.1
  have hones := digitChar_inj (i % 10) (by omega) (j % 10) (by omega) hlist.2
  omega

theorem profileName_valid : ∀ k < 66, validateName (profileName k) = .ok () := by decide

theorem mem_numberedProfiles {k : Nat} {name : String} (h : name ∈ numberedProfiles k) :
    ∃ i < k, name = profileName i := by
  induction k with
  | zero => simp [numberedProfiles] at h
  | succ k ih =>
    rw [numberedProfiles, Std.ExtTreeMap.mem_insert] at h
    rcases h with h | h
    · exact ⟨k, Nat.lt_succ_self k, (Std.LawfulEqCmp.eq_of_compare h).symm⟩
    · obtain ⟨i, hi, hname⟩ := ih h
      exact ⟨i, Nat.lt_succ_of_lt hi, hname⟩

theorem profileName_new {k : Nat} (hk : k < 100) : profileName k ∉ numberedProfiles k := by
  intro h
  obtain ⟨i, hi, hname⟩ := mem_numberedProfiles h
  exact absurd (profileName_inj hk (by omega) hname) (by omega)

theorem numberedProfiles_size {k : Nat} (hk : k ≤ 100) : (numberedProfiles k).size = k := by
  induction k with
  | zero => rfl
  | succ k ih =>
    have hnew : (numberedProfiles k).contains (profileName k) = false :=
      by
      rw [← Bool.not_eq_true, ← Std.ExtTreeMap.mem_iff_contains]
      exact profileName_new (by omega)
    rw [numberedProfiles, Std.ExtTreeMap.size_insert, hnew, ih (by omega)]
    rfl

theorem numberedProfiles_valid {k : Nat} (hk : k ≤ 66) :
    validateAll (numberedProfiles k).toList = .ok () := by
  induction k with
  | zero => exact (validateAll_iff _).mpr (by simp [numberedProfiles])
  | succ k ih => exact validateAll_insert (ih (by omega)) (profileName_valid k (by omega)) rfl

theorem profileText_length (k : Nat) : (profileText k).length = 93 := by
  have hname : (profileName k).toList.length = 3 := by rw [profileName, String.toList_ofList]; rfl
  have hstart : tableStart.toList.length = 11 := by decide
  have hplain : plainText.toList.length = 56 := by decide
  have hend : facetsEnd.toList.length = 9 := by decide
  simp only [profileText, List.length_append, hname, hstart, hplain, hend]

theorem numberedText_length (k : Nat) : (numberedText k).length = 12 + 93 * k := by
  have hhead : versionLine.toList.length = 12 := by decide
  have hprofiles : ((List.range k).flatMap profileText).length = 93 * k := by
    induction k with
    | zero => rfl
    | succ k ih =>
      rw [List.range_succ, List.flatMap_append, List.length_append, ih, List.flatMap_singleton,
        profileText_length]
      omega
  rw [numberedText, String.length_ofList, List.length_append, hhead, hprofiles]

theorem utf8ByteSize_le (text : String) : text.utf8ByteSize ≤ 4 * text.length := by
  have hchars (chars : List Char) : utf8Length chars ≤ 4 * chars.length := by
    induction chars with
    | nil => simp [utf8Length]
    | cons c chars ih =>
      have hc := c.utf8Size_le_four
      simp only [utf8Length, List.map_cons, List.sum_cons, List.length_cons] at ih ⊢
      omega
  rw [← String.ofList_toList (s := text), utf8ByteSize_text, String.length_ofList]
  exact hchars text.toList

theorem numberedText_size {k : Nat} (hk : k ≤ 66) : (numberedText k).utf8ByteSize ≤ maxBytes := by
  have hsize := utf8ByteSize_le (numberedText k)
  have hlength := numberedText_length k
  have hmax : maxBytes = 131072 := rfl
  omega

theorem numbered_encode {k : Nat} (hk : k < 66) :
    numbered.encode ⟨1, numberedProfiles k⟩ = .ok (numberedText k) := by
  have hfind : (List.range 66).find? (fun j => (⟨1, numberedProfiles k⟩ : Document) =
      ⟨1, numberedProfiles j⟩) = some k := by
    refine find_only (List.mem_range.mpr hk) (by simp) fun j hj hsame => ?_
    have hj := List.mem_range.mp hj
    have hsizes : (numberedProfiles k).size = (numberedProfiles j).size :=
      congrArg (fun document => document.profiles.size) (of_decide_eq_true hsame)
    rw [numberedProfiles_size (by omega), numberedProfiles_size (by omega)] at hsizes
    exact hsizes.symm
  show Option.elim _ _ _ = _
  rw [hfind]
  rfl

theorem numbered_decode {k : Nat} (hk : k < 66) :
    numbered.decode (numberedText k) = .ok ⟨1, numberedProfiles k⟩ := by
  have hfind : (List.range 66).find? (fun j => numberedText k = numberedText j) = some k := by
    refine find_only (List.mem_range.mpr hk) (by simp) fun j hj hsame => ?_
    have hlengths := congrArg String.length (of_decide_eq_true hsame)
    rw [numberedText_length, numberedText_length] at hlengths
    omega
  show Option.elim _ _ _ = _
  rw [hfind]
  rfl

theorem numbered_roundTrips : numbered.RoundTrips := by
  intro document content h
  change Option.elim _ _ _ = _ at h
  cases hfind : (List.range 66).find? (fun j => document = (⟨1, numberedProfiles j⟩ : Document)) with
  | none =>
    rw [hfind] at h
    cases h
  | some k =>
    have hk := List.mem_range.mp (List.mem_of_find?_eq_some hfind)
    have hdocument : document = ⟨1, numberedProfiles k⟩ := by simpa using List.find?_some hfind
    rw [hfind] at h
    cases Except.ok.inj h
    rw [hdocument]
    exact numbered_decode hk

def numberedFile : Nat → Option String
  | 0 => none
  | k + 1 => some (numberedText (k + 1))

def numberedSnapshot : Nat → ProfileSnapshot
  | 0 => {}
  | k + 1 => ⟨numbered.hash (numberedText (k + 1)), numberedProfiles (k + 1)⟩

theorem numberedSnapshot_profiles (k : Nat) : (numberedSnapshot k).profiles = numberedProfiles k := by
  cases k <;> rfl

theorem numbered_current {k : Nat} (hk : k ≤ 64) :
    current numbered (numberedFile k) = .ok (numberedSnapshot k) := by
  cases k with
  | zero => rfl
  | succ k =>
    show accept numbered (numberedText (k + 1)) = _
    have hsize : ¬ maxBytes < (numberedText (k + 1)).utf8ByteSize :=
      Nat.not_lt.mpr (numberedText_size (by omega))
    have hfew : ¬ 64 < (numberedProfiles (k + 1)).size := by
      rw [numberedProfiles_size (by omega)]
      omega
    rw [accept, if_neg hsize, numbered_decode (by omega)]
    dsimp only
    rw [if_neg (by simp), if_neg hfew, numberedProfiles_valid (by omega)]
    rfl

/-- The next numbered profile is saved at the revision the file has. -/
def saveNext (k : Nat) : ProfileCall :=
  ⟨.save (profileName k) plain (numberedSnapshot k).revision, []⟩

theorem saveNext_writes {k : Nat} (hk : k ≤ 64) : (saveNext k).op.writes numbered (numberedFile k) =
    .ok (⟨1, numberedProfiles (k + 1)⟩, numberedText (k + 1)) := by
  have hprepare : (saveNext k).op.prepare = .ok ((numberedSnapshot k).revision,
      ProfileStore.insertProfile (profileName k) plain) := by
    show (validateName (profileName k) >>= _) = _
    rw [profileName_valid k (by omega)]
    rfl
  rw [ProfileOp.writes, hprepare]
  show (current numbered (numberedFile k) >>= written numbered (numberedSnapshot k).revision
    (ProfileStore.insertProfile (profileName k) plain)) = _
  rw [numbered_current hk]
  show written numbered _ _ _ = _
  have hsize : ¬ maxBytes < (numberedText (k + 1)).utf8ByteSize :=
    Nat.not_lt.mpr (numberedText_size (by omega))
  have hedit : ProfileStore.insertProfile (profileName k) plain ⟨1, (numberedSnapshot k).profiles⟩ =
      .ok ⟨1, numberedProfiles (k + 1)⟩ := by
    rw [numberedSnapshot_profiles]
    rfl
  rw [written, if_neg (by simp), hedit]
  show ((numbered.encode _).mapError ProfileError.encode >>= _) = _
  rw [numbered_encode (by omega)]
  exact if_neg hsize

theorem saveNext_file {k : Nat} (hk : k ≤ 64) {disk : ProfileDisk} (hdisk : disk.file = numberedFile k) :
    ((saveNext k).exec numbered disk).2.file = numberedFile (k + 1) := by
  have hwrites := saveNext_writes hk
  rw [← hdisk] at hwrites
  obtain ⟨-, -, hnot⟩ | ⟨document, content, hok, -, hfile, -⟩ := exec_cases numbered (saveNext k) disk
  · exact absurd (fun e he => by simp [saveNext] at he) (hnot _ _ hwrites)
  · rw [hwrites] at hok
    rw [hfile, ← (Prod.mk.inj (Except.ok.inj hok)).2]
    rfl

def saves (n : Nat) : List ProfileCall := (List.range n).map saveNext

theorem saves_succ (n : Nat) : saves (n + 1) = saves n ++ [saveNext n] := by
  rw [saves, List.range_succ, List.map_append]
  rfl

theorem saves_file {n : Nat} (hn : n ≤ 65) : (run numbered (saves n) {}).file = numberedFile n := by
  induction n with
  | zero => rfl
  | succ n ih =>
    rw [saves_succ, run, List.foldl_append]
    exact saveNext_file (by omega) (ih (by omega))

theorem saveNext_fits_iff {k : Nat} (hk : k ≤ 64) {disk : ProfileDisk}
    (hdisk : disk.file = numberedFile k) : (saveNext k).Fits numbered disk ↔ k < 64 := by
  have hcurrent := numbered_current hk
  have hwrites := saveNext_writes hk
  rw [← hdisk] at hcurrent hwrites
  have hover : (saveNext k).op.Overfills (numberedSnapshot k) ↔ k = 64 := by
    show profileName k ∉ (numberedSnapshot k).profiles ∧ 64 ≤ (numberedSnapshot k).profiles.size ↔ _
    rw [numberedSnapshot_profiles, numberedProfiles_size (by omega)]
    exact ⟨fun h => by omega, fun h => ⟨profileName_new (by omega), by omega⟩⟩
  constructor
  · intro hfits
    have hroom := (hfits _ _ _ hcurrent hwrites (fun e he => by simp [saveNext] at he)).1
    have hk' := mt hover.mpr hroom
    omega
  · intro hk' snapshot document content hc _ _
    rw [hcurrent] at hc
    cases Except.ok.inj hc
    refine ⟨fun h => ?_, fun _ e he => by simp [saveNext] at he⟩
    have := hover.mp h
    omega

theorem saves_fit_iff {n : Nat} (hn : n ≤ 65) :
    AlongRun numbered (ProfileCall.Fits numbered) (saves n) {} ↔ n ≤ 64 := by
  induction n with
  | zero => simp [saves, AlongRun]
  | succ n ih =>
    have hnext := saveNext_fits_iff (by omega) (saves_file (by omega : n ≤ 65))
    rw [saves_succ, alongRun_append]
    show AlongRun numbered _ (saves n) {} ∧ (saveNext n).Fits numbered _ ∧ True ↔ _
    rw [ih (by omega), hnext, and_true]
    omega

theorem sixtyFour_saves_usable : AlongRun numbered (ProfileCall.KeepsUsable numbered) (saves 64) {} :=
  (profiles_stay_usable numbered numbered_roundTrips (saves 64)).mpr
    ((saves_fit_iff (by decide)).mpr (by decide))

/-- The 65th profile is written although the reader refuses it: its save fails, the file has
changed, and no later operation can read it. -/
theorem sixtyFifth_save_unreadable : numbered.RoundTrips ∧
    ¬ AlongRun numbered (ProfileCall.KeepsUsable numbered) (saves 65) {} ∧
    (ProfileStore.read numbered [] (run numbered (saves 65) {})).1.isDone = false := by
  refine ⟨numbered_roundTrips, ?_, ?_⟩
  · rw [alongRun_congr (keepsUsable_iff numbered_roundTrips), saves_fit_iff (by decide)]
    decide
  · rw [← Bool.not_eq_true, reads_back_iff, saves_file (by decide)]
    rintro ⟨snapshot, hread⟩
    have hfile : numberedFile 65 = some (numberedText 65) := rfl
    rw [hfile, current] at hread
    obtain ⟨hdecode, hfew, -⟩ := accept_ok hread
    have hall : numbered.decode (numberedText 65) = .ok ⟨1, numberedProfiles 65⟩ :=
      numbered_decode (by decide)
    rw [hall] at hdecode
    have hprofiles : numberedProfiles 65 = snapshot.profiles :=
      congrArg Document.profiles (Except.ok.inj hdecode)
    have hsize : (numberedProfiles 65).size = 65 := numberedProfiles_size (by decide)
    rw [← hprofiles, hsize] at hfew
    exact absurd hfew (by decide)

end NixSecrets.Profiles
