import NixSecrets.DecryptBatch

namespace NixSecrets.Crypto

section

variable (programs : Programs)

/-- The file is encrypted for the key. -/
def Programs.Lists (item : Item) (ciphertext : List UInt8) : Prop :=
  ∃ tags, programs.stanzaTags ciphertext = some tags ∧ Launcher.lists programs item tags = true

def Programs.OpensWith (item : Item) (ciphertext plaintext : List UInt8) : Prop :=
  ∃ key, programs.read item = .ok key ∧ Launcher.runInput programs (.key key) ciphertext = .ok plaintext

/-- Any key of the account that a file is encrypted for decrypts it to the same. -/
def Programs.ListedAlike : Prop :=
  ∀ items item item' ciphertext plaintext, programs.list = .ok items → item ∈ items → item' ∈ items →
    programs.Lists item ciphertext → programs.Lists item' ciphertext →
    programs.OpensWith item ciphertext plaintext → programs.OpensWith item' ciphertext plaintext

/-- One key of the account is among those of every file. -/
def Programs.ShareKey (ciphertexts : List (List UInt8)) : Prop :=
  ∃ items, programs.list = .ok items ∧
    ∃ item ∈ items, ∀ ciphertext ∈ ciphertexts, programs.Lists item ciphertext

/-- The bytes a value takes in what the launcher writes. -/
def framed (entry : String × EncryptedSecret) (value : List UInt8) : Nat :=
  innerFixedSize + entry.1.utf8ByteSize + value.length + 4

/-- The launcher, where there is one, takes the records as one batch and gives its values back. -/
def AgeCommandProvider.Batched (provider : AgeCommandProvider) (records : List (String × EncryptedSecret))
    (values : List (List UInt8)) : Prop :=
  provider.launcher = true → records ≠ [] →
    Launcher.Fits (records.map (·.2.ageCiphertext)) ∧
    (List.zipWith framed records values).sum ≤ Launcher.maxBatchBytes ∧
    (provider.decryption = .onePassword → programs.ShareKey (records.map (·.2.ageCiphertext)))

end

section

variable {programs : Programs}

theorem sshStanzaTags_ok {input : List UInt8} {tags : List (List UInt8)} :
    Launcher.sshStanzaTags programs input = .ok tags ↔ programs.stanzaTags input = some tags := by
  unfold Launcher.sshStanzaTags
  cases programs.stanzaTags input with
  | none => simp
  | some tags' => simp

theorem choose_ok {items : List Item} {inputs : List (List UInt8)} {item : Item}
    (h : Launcher.choose programs items inputs = .ok item) :
    item ∈ items ∧ ∀ input ∈ inputs, programs.Lists item input := by
  cases hstanzas : inputs.mapM (Launcher.sshStanzaTags programs) with
  | error message =>
    rw [Launcher.choose, hstanzas] at h
    cases h
  | ok stanzas =>
    have hall := mapM_ok_iff.mp hstanzas
    simp only [Launcher.choose, hstanzas, bind, Except.bind] at h
    split at h
    next => cases h
    next found hfound =>
      cases h
      refine ⟨List.mem_of_find?_eq_some hfound, ?_⟩
      intro input hinput
      have hlists := List.find?_some hfound
      obtain ⟨tags, hmem, htags⟩ := forall₂_mem_left hall input hinput
      exact ⟨tags, sshStanzaTags_ok.mp htags, List.all_eq_true.mp hlists tags hmem⟩

theorem choose_of_shared {items : List Item} {inputs : List (List UInt8)} {item : Item} (hitem : item ∈ items)
    (hlists : ∀ input ∈ inputs, programs.Lists item input) :
    ∃ found, Launcher.choose programs items inputs = .ok found := by
  have htags : ∃ stanzas, List.Forall₂ (fun input tags => programs.stanzaTags input = some tags ∧
      Launcher.lists programs item tags = true) inputs stanzas := by
    induction inputs with
    | nil => exact ⟨[], List.Forall₂.nil⟩
    | cons input inputs ih =>
      obtain ⟨tags, hinput⟩ := hlists input List.mem_cons_self
      obtain ⟨stanzas, hrest⟩ := ih fun x hx => hlists x (List.mem_cons_of_mem input hx)
      exact ⟨tags :: stanzas, List.Forall₂.cons hinput hrest⟩
  obtain ⟨stanzas, htags⟩ := htags
  have hstanzas : inputs.mapM (Launcher.sshStanzaTags programs) = .ok stanzas :=
    mapM_ok_iff.mpr (htags.imp fun _ _ h => sshStanzaTags_ok.mpr h.1)
  have hall : stanzas.all (Launcher.lists programs item) = true := by
    apply List.all_eq_true.mpr
    intro tags hmem
    obtain ⟨_, _, _, hlists⟩ := forall₂_mem_right htags tags hmem
    exact hlists
  simp only [Launcher.choose, hstanzas, bind, Except.bind]
  cases hfind : items.find? fun item => stanzas.all (Launcher.lists programs item) with
  | none => exact absurd hall (List.find?_eq_none.mp hfind item hitem)
  | some found => exact ⟨found, rfl⟩

theorem oneKey_ok {inputs : List (List UInt8)} {identity : Identity} :
    Launcher.oneKey programs inputs = .ok identity ↔
      ∃ items item key, programs.list = .ok items ∧ Launcher.choose programs items inputs = .ok item ∧
        programs.read item = .ok key ∧ identity = .key key := by
  unfold Launcher.oneKey
  cases programs.list with
  | error message => simp [bind, Except.bind]
  | ok items =>
    cases hchoose : Launcher.choose programs items inputs with
    | error message => simp [bind, Except.bind, hchoose]
    | ok item =>
      cases hread : programs.read item with
      | error message => simp [bind, Except.bind, hchoose, hread]
      | ok key => simp [bind, Except.bind, pure, Except.pure, hchoose, hread, eq_comm]

/-- What the key of a batch opens, the key chosen for the file alone opens too. -/
theorem identityOf_one {mode : DecryptionMode} {ciphertexts : List (List UInt8)} {identity : Identity}
    {ciphertext plaintext : List UInt8} (hlisted : programs.ListedAlike)
    (hidentity : Launcher.identityOf programs mode ciphertexts = .ok identity) (hmem : ciphertext ∈ ciphertexts)
    (hrun : Launcher.runInput programs identity ciphertext = .ok plaintext) :
    ∃ alone, Launcher.identityOf programs mode [ciphertext] = .ok alone ∧
      Launcher.runInput programs alone ciphertext = .ok plaintext := by
  cases mode with
  | identityFile path => exact ⟨identity, hidentity, hrun⟩
  | onePassword =>
    obtain ⟨items, item, key, hlist, hchoose, hread, rfl⟩ := oneKey_ok.mp hidentity
    obtain ⟨hitem, hlists⟩ := choose_ok hchoose
    have halone : ∀ input ∈ [ciphertext], programs.Lists item input := by
      intro input hinput
      rw [List.mem_singleton.mp hinput]
      exact hlists ciphertext hmem
    obtain ⟨found, hfound⟩ := choose_of_shared hitem halone
    obtain ⟨hmember, hown⟩ := choose_ok hfound
    obtain ⟨key', hread', hopens⟩ := hlisted items item found ciphertext plaintext hlist hitem hmember
      (hlists ciphertext hmem) (hown ciphertext List.mem_cons_self) ⟨key, hread, hrun⟩
    exact ⟨.key key', oneKey_ok.mpr ⟨items, found, key', hlist, hfound, hread', rfl⟩, hopens⟩

/-- Where one key opens each file of a batch alone, it opens the batch. -/
theorem identityOf_all {mode : DecryptionMode} {ciphertexts plaintexts : List (List UInt8)}
    (hlisted : programs.ListedAlike) (hne : ciphertexts ≠ [])
    (hshare : mode = .onePassword → programs.ShareKey ciphertexts)
    (hall : List.Forall₂ (fun c p => ∃ alone, Launcher.identityOf programs mode [c] = .ok alone ∧
      Launcher.runInput programs alone c = .ok p) ciphertexts plaintexts) :
    ∃ identity, Launcher.identityOf programs mode ciphertexts = .ok identity ∧
      List.Forall₂ (fun c p => Launcher.runInput programs identity c = .ok p) ciphertexts plaintexts := by
  obtain ⟨first, hfirst⟩ := List.exists_mem_of_ne_nil _ hne
  obtain ⟨output, _, alone, halone, hopened⟩ := forall₂_mem_left hall first hfirst
  cases mode with
  | identityFile path =>
    refine ⟨alone, halone, hall.imp ?_⟩
    rintro c p ⟨other, hother, hrun⟩
    have hsame : Except.ok alone = Except.ok other := halone.symm.trans hother
    cases hsame
    exact hrun
  | onePassword =>
    obtain ⟨items, hlist, item, hitem, hlists⟩ := hshare rfl
    obtain ⟨found, hfound⟩ := choose_of_shared hitem hlists
    obtain ⟨hmember, hown⟩ := choose_ok hfound
    have hopens {c p : List UInt8} (hc : c ∈ ciphertexts) (h : ∃ alone,
        Launcher.identityOf programs .onePassword [c] = .ok alone ∧
          Launcher.runInput programs alone c = .ok p) : programs.OpensWith found c p := by
      obtain ⟨_, hidentity, hrun⟩ := h
      obtain ⟨items', item', key, hlist', hchoose, hread, rfl⟩ := oneKey_ok.mp hidentity
      rw [hlist] at hlist'
      cases hlist'
      obtain ⟨hitem', hlists'⟩ := choose_ok hchoose
      exact hlisted items item' found c p hlist hitem' hmember (hlists' c List.mem_cons_self) (hown c hc)
        ⟨key, hread, hrun⟩
    obtain ⟨key, hread, _⟩ := hopens hfirst ⟨alone, halone, hopened⟩
    refine ⟨.key key, oneKey_ok.mpr ⟨items, found, key, hlist, hfound, hread, rfl⟩, ?_⟩
    have hmembers := (List.forall₂_and_left ciphertexts plaintexts).mpr ⟨fun c hc => hc, hall⟩
    refine hmembers.imp ?_
    rintro c p ⟨hc, h⟩
    obtain ⟨key', hread', hrun⟩ := hopens hc h
    rw [hread] at hread'
    cases hread'
    exact hrun

theorem decryptSecret_ok {provider : CryptoProvider} {identifier : String} {record : EncryptedSecret}
    {value : List UInt8} : decryptSecret provider identifier record = .ok value ↔
      (validateIdentifier identifier = .ok () ∧ validateRecord record = .ok ()) ∧
        ∃ inner, provider.decrypt record.ageCiphertext = .ok inner ∧
          decodeInner identifier record.versionId inner = .ok value := by
  constructor
  · intro h
    obtain ⟨_, hidentifier, h⟩ := Checked.bind_ok h
    obtain ⟨_, hrecord, h⟩ := Checked.bind_ok h
    obtain ⟨inner, hinner, h⟩ := Checked.bind_ok h
    exact ⟨⟨hidentifier, hrecord⟩, inner, Checked.mapRefusal_ok hinner, h⟩
  · rintro ⟨⟨hidentifier, hrecord⟩, inner, hinner, hdecode⟩
    rw [decryptSecret, hidentifier, Checked.ok_bind, hrecord, Checked.ok_bind, hinner]
    exact hdecode

/-- Several records decrypt when all are valid, the batch decrypts, and each value is that of its record. -/
theorem decryptSecrets_ok {provider : CryptoProvider} {records : List (String × EncryptedSecret)}
    {values : List (List UInt8)} : decryptSecrets provider records = .ok values ↔
      (∀ entry ∈ records, validateIdentifier entry.1 = .ok () ∧ validateRecord entry.2 = .ok ()) ∧
        ∃ inner, provider.decryptBatch (records.map (·.2.ageCiphertext)) = .ok inner ∧
          List.Forall₂ (fun entry value => decodeInner entry.1.1 entry.1.2.versionId entry.2 = .ok value)
            (records.zip inner) values := by
  constructor
  · intro h
    obtain ⟨_, hvalid, h⟩ := Checked.bind_ok h
    obtain ⟨inner, hinner, h⟩ := Checked.bind_ok h
    refine ⟨?_, inner, Checked.mapRefusal_ok hinner, mapM_ok_iff.mp h⟩
    intro entry hentry
    obtain ⟨_, hidentifier, hrecord⟩ := Checked.bind_ok (Checked.each_ok hvalid entry hentry)
    exact ⟨hidentifier, hrecord⟩
  · rintro ⟨hvalid, inner, hinner, hdecode⟩
    have heach : Checked.each (fun entry : String × EncryptedSecret => do
        validateIdentifier entry.1
        validateRecord entry.2) records = .ok () := by
      apply Checked.each_of_ok
      intro entry hentry
      obtain ⟨hidentifier, hrecord⟩ := hvalid entry hentry
      rw [hidentifier, Checked.ok_bind, hrecord]
    rw [decryptSecrets, heach, Checked.ok_bind, hinner]
    exact mapM_ok_iff.mpr hdecode

/-- A batch goes through the launcher as its files do alone, if it fits and one key opens all of it. -/
theorem decryptBatch_launched {provider : AgeCommandProvider} {ciphertexts plaintexts : List (List UInt8)}
    (hlisted : programs.ListedAlike) (hlauncher : provider.launcher = true) (hne : ciphertexts ≠ [])
    (hshort : ∀ ciphertext ∈ ciphertexts, ciphertext.length ≤ maxCiphertextSize)
    (hsmall : ∀ plaintext ∈ plaintexts, plaintext.length ≤ maxPlaintextSize) :
    provider.decryptBatch programs ciphertexts = .ok plaintexts ↔
      List.Forall₂ (fun c p => provider.decrypt programs c = .ok p) ciphertexts plaintexts ∧
        Launcher.Fits ciphertexts ∧ (prefixedAll 4 plaintexts).length ≤ Launcher.maxBatchBytes ∧
        (provider.decryption = .onePassword → programs.ShareKey ciphertexts) := by
  have hlarge : ¬ ∃ ciphertext ∈ ciphertexts, maxCiphertextSize < ciphertext.length := by
    rintro ⟨ciphertext, hmem, hlong⟩
    exact absurd (hshort ciphertext hmem) (Nat.not_le_of_lt hlong)
  rw [AgeCommandProvider.decryptBatch, Checked.refuseIf_of_not _ hlarge, Checked.ok_bind, if_neg hne, hlauncher,
    if_neg (by simp), AgeCommandProvider.launcherBatch_ok hne hshort]
  constructor
  · rintro ⟨identity, hidentity, hfits, hmap, htotal, _⟩
    have hall := mapM_ok_iff.mp hmap
    refine ⟨?_, hfits, htotal, ?_⟩
    · have hmembers := (List.forall₂_and_left ciphertexts plaintexts).mpr ⟨fun c hc => hc, hall⟩
      have hboth := (List.forall₂_and_left plaintexts ciphertexts).mpr ⟨hsmall, hmembers.flip⟩
      refine hboth.flip.imp ?_
      rintro c p ⟨hlimit, hmem, hrun⟩
      exact (AgeCommandProvider.decrypt_launched hlauncher).mpr
        ⟨hshort c hmem, hlimit, identityOf_one hlisted hidentity hmem hrun⟩
    · intro hmode
      rw [hmode] at hidentity
      obtain ⟨items, item, key, hlist, hchoose, _, _⟩ := oneKey_ok.mp hidentity
      obtain ⟨hitem, hlists⟩ := choose_ok hchoose
      exact ⟨items, hlist, item, hitem, hlists⟩
  · rintro ⟨hall, hfits, htotal, hshare⟩
    have halone := hall.imp fun c p h => ((AgeCommandProvider.decrypt_launched hlauncher).mp h).2.2
    obtain ⟨identity, hidentity, hrun⟩ := identityOf_all hlisted hne hshare halone
    refine ⟨identity, hidentity, hfits, mapM_ok_iff.mpr hrun, htotal, ?_⟩
    rw [hall.length_eq]
    exact prefixedAll_bounded hsmall

/-- The lengths of the values tell how long what they were decoded from is. -/
theorem decoded_framed {records : List (String × EncryptedSecret)} {inner values : List (List UInt8)}
    (hlength : records.length = inner.length)
    (h : List.Forall₂ (fun entry value => decodeInner entry.1.1 entry.1.2.versionId entry.2 = .ok value)
      (records.zip inner) values) :
    (prefixedAll 4 inner).length = (List.zipWith framed records values).sum ∧
      ∀ plaintext ∈ inner, plaintext.length ≤ maxPlaintextSize := by
  induction records generalizing inner values with
  | nil =>
    cases inner with
    | nil => exact ⟨rfl, nofun⟩
    | cons plaintext inner => cases hlength
  | cons record records ih =>
    cases inner with
    | nil => cases hlength
    | cons plaintext inner =>
      cases h with
      | @cons _ value _ values hvalue hrest =>
        have hsmall : plaintext.length ≤ maxPlaintextSize := (decodeInner_length hvalue).2
        have hsize : plaintext.length = innerFixedSize + record.1.utf8ByteSize + value.length :=
          (decodeInner_length hvalue).1
        obtain ⟨hsum, hall⟩ := ih (Nat.succ.inj hlength) hrest
        constructor
        · rw [prefixedAll_cons, List.length_append, prefixed_length, hsum, List.zipWith_cons_cons,
            List.sum_cons, framed]
          omega
        · intro p hp
          rcases List.mem_cons.mp hp with rfl | hp
          · exact hsmall
          · exact hall p hp

theorem validateRecord_short {record : EncryptedSecret} (h : validateRecord record = .ok ()) :
    record.ageCiphertext.length ≤ maxCiphertextSize := by
  have hvalid := Checked.refuseIf_ok h
  omega

theorem decryptSecret_all {provider : CryptoProvider} {records : List (String × EncryptedSecret)}
    {values : List (List UInt8)} :
    List.Forall₂ (fun entry value => decryptSecret provider entry.1 entry.2 = .ok value) records values ↔
      (∀ entry ∈ records, validateIdentifier entry.1 = .ok () ∧ validateRecord entry.2 = .ok ()) ∧
        ∃ inner, List.Forall₂ (fun c p => provider.decrypt c = .ok p) (records.map (·.2.ageCiphertext)) inner ∧
          List.Forall₂ (fun entry value => decodeInner entry.1.1 entry.1.2.versionId entry.2 = .ok value)
            (records.zip inner) values := by
  simp only [decryptSecret_ok, List.forall₂_and_left, List.forall₂_map_left_iff]
  rw [forall₂_through]

theorem decryptBatch_nil (provider : AgeCommandProvider) : provider.decryptBatch programs [] = .ok [] := by
  rw [AgeCommandProvider.decryptBatch, Checked.refuseIf_of_not _ (by simp), Checked.ok_bind, if_pos rfl]
  rfl

theorem decryptBatch_length {provider : AgeCommandProvider} {ciphertexts plaintexts : List (List UInt8)}
    (hlauncher : provider.launcher = true) (hne : ciphertexts ≠ [])
    (h : provider.decryptBatch programs ciphertexts = .ok plaintexts) :
    ciphertexts.length = plaintexts.length := by
  obtain ⟨_, _, h⟩ := Checked.bind_ok h
  rw [if_neg hne, hlauncher, if_neg (by simp)] at h
  obtain ⟨_, _, h⟩ := Checked.bind_ok h
  obtain ⟨_, _, h⟩ := Checked.bind_ok h
  obtain ⟨_, hcount, h⟩ := Checked.bind_ok h
  cases h
  exact (Classical.not_not.mp (Checked.refuseIf_ok hcount)).symm

theorem decryptSecrets_batched {provider : AgeCommandProvider} (hlisted : programs.ListedAlike)
    (records : List (String × EncryptedSecret)) (values : List (List UInt8)) :
    decryptSecrets (provider.cryptoProvider programs) records = .ok values ↔
      List.Forall₂ (fun entry value =>
        decryptSecret (provider.cryptoProvider programs) entry.1 entry.2 = .ok value) records values ∧
        provider.Batched programs records values := by
  rw [decryptSecrets_ok, decryptSecret_all]
  cases hlauncher : provider.launcher with
  | false =>
    have hbatch := @AgeCommandProvider.decryptBatch_unlaunched programs provider
      (records.map (·.2.ageCiphertext))
    constructor
    · rintro ⟨hvalid, inner, hinner, hdecode⟩
      refine ⟨⟨hvalid, inner, (hbatch hlauncher).mp hinner, hdecode⟩, ?_⟩
      intro h
      rw [hlauncher] at h
      cases h
    · rintro ⟨⟨hvalid, inner, hinner, hdecode⟩, _⟩
      exact ⟨hvalid, inner, (hbatch hlauncher).mpr hinner, hdecode⟩
  | true =>
    by_cases hne : records = []
    · subst hne
      constructor
      · rintro ⟨hvalid, inner, hinner, hdecode⟩
        have hnil : Except.ok [] = Except.ok inner := (decryptBatch_nil provider).symm.trans hinner
        cases hnil
        exact ⟨⟨hvalid, [], List.Forall₂.nil, hdecode⟩, fun _ h => absurd rfl h⟩
      · rintro ⟨⟨hvalid, inner, hinner, hdecode⟩, _⟩
        cases hinner
        exact ⟨hvalid, [], decryptBatch_nil provider, hdecode⟩
    · have hciphertexts : records.map (·.2.ageCiphertext) ≠ [] := fun h => hne (List.map_eq_nil_iff.mp h)
      have hshort (hvalid : ∀ entry ∈ records, validateIdentifier entry.1 = .ok () ∧
          validateRecord entry.2 = .ok ()) :
          ∀ ciphertext ∈ records.map (·.2.ageCiphertext), ciphertext.length ≤ maxCiphertextSize := by
        intro ciphertext hmem
        obtain ⟨entry, hentry, rfl⟩ := List.mem_map.mp hmem
        exact validateRecord_short (hvalid entry hentry).2
      constructor
      · rintro ⟨hvalid, inner, hinner, hdecode⟩
        have hlength := decryptBatch_length hlauncher hciphertexts hinner
        rw [List.length_map] at hlength
        obtain ⟨hsum, hsmall⟩ := decoded_framed hlength hdecode
        obtain ⟨hall, hfits, htotal, hshare⟩ := (decryptBatch_launched hlisted hlauncher hciphertexts
          (hshort hvalid) hsmall).mp hinner
        rw [hsum] at htotal
        exact ⟨⟨hvalid, inner, hall, hdecode⟩, fun _ _ => ⟨hfits, htotal, hshare⟩⟩
      · rintro ⟨⟨hvalid, inner, hall, hdecode⟩, hbatched⟩
        have hlength := hall.length_eq
        rw [List.length_map] at hlength
        obtain ⟨hsum, hsmall⟩ := decoded_framed hlength hdecode
        obtain ⟨hfits, htotal, hshare⟩ := hbatched hlauncher hne
        rw [← hsum] at htotal
        exact ⟨hvalid, inner, (decryptBatch_launched hlisted hlauncher hciphertexts (hshort hvalid)
          hsmall).mpr ⟨hall, hfits, htotal, hshare⟩, hdecode⟩

/-- The inner format is exact and binds a secret to its identifier and version, and several records
decrypt as each of them does, where the launcher takes them as one batch. -/
theorem secret_format_binding (programs : Programs) (provider : AgeCommandProvider)
    (hlisted : programs.ListedAlike) :
    (∀ identifier (versionId : VersionId) secret, validateIdentifier identifier = .ok () →
      secret.length ≤ maxSecretSize →
      decodeInner identifier versionId.val (encodeInner identifier versionId secret) = .ok secret) ∧
    (∀ identifier versionId inner secret, decodeInner identifier versionId inner = .ok secret →
      ∃ hversion, inner = encodeInner identifier ⟨versionId, hversion⟩ secret) ∧
    (∀ identifier versionId secret identifier' versionId' secret', validateIdentifier identifier = .ok () →
      decodeInner identifier' versionId' (encodeInner identifier versionId secret) = .ok secret' →
      identifier' = identifier ∧ versionId' = versionId.val ∧ secret' = secret) ∧
    (∀ decrypt records values, decryptSecrets ⟨decrypt, (·.mapM decrypt)⟩ records = .ok values ↔
      List.Forall₂ (fun entry value =>
        decryptSecret ⟨decrypt, (·.mapM decrypt)⟩ entry.1 entry.2 = .ok value) records values) ∧
    ∀ records values, decryptSecrets (provider.cryptoProvider programs) records = .ok values ↔
      List.Forall₂ (fun entry value =>
        decryptSecret (provider.cryptoProvider programs) entry.1 entry.2 = .ok value) records values ∧
        provider.Batched programs records values := by
  refine ⟨?_, ?_, ?_, ?_, decryptSecrets_batched hlisted⟩
  · intro identifier versionId secret hvalid hsmall
    exact decodeInner_encodeInner hvalid hsmall
  · intro identifier versionId inner secret h
    obtain ⟨hversion, hinner, _⟩ := decodeInner_ok h
    exact ⟨hversion, hinner⟩
  · intro identifier versionId secret identifier' versionId' secret' hvalid h
    obtain ⟨hversion, hinner, hvalid', _⟩ := decodeInner_ok h
    obtain ⟨hid, hsame, hsecret⟩ := encodeInner_inj hvalid hvalid' hinner
    exact ⟨hid.symm, (congrArg Subtype.val hsame).symm, hsecret.symm⟩
  · intro decrypt records values
    rw [decryptSecrets_ok, decryptSecret_all]
    simp only [mapM_ok_iff]

end

/-- The value of `web.services.mail.token` in its first version. -/
def tokenInner : List UInt8 := encodeInner "web.services.mail.token" ⟨List.replicate 16 0, rfl⟩ [7]

def tokenRecord (ciphertext : List UInt8) : String × EncryptedSecret :=
  ("web.services.mail.token", ⟨1, List.replicate 16 0, ["operator"], ciphertext⟩)

/-- An account with two keys, and a file for each of them. -/
def twoKeys : Programs where
  age identity ciphertext :=
    if identity = .key ciphertext then ⟨tokenInner, [], .exited 0⟩
    else ⟨[], "age: error: no identity matched any of the recipients\n".toList, .exited 1⟩
  authorize := .ok ()
  list := .ok [⟨"vault", "first", "", "one"⟩, ⟨"vault", "second", "", "two"⟩]
  read item := .ok (if item.id = "first" then [1] else [2])
  stanzaTags ciphertext := some [ciphertext]
  fingerprintTag fingerprint := some (if fingerprint = "one" then [1] else [2])
  batchLog _ _ := []
  workers := 1

theorem twoKeys_lists {item : Item} {ciphertext : List UInt8} (h : twoKeys.Lists item ciphertext) :
    ciphertext = if item.fingerprint = "one" then [1] else [2] := by
  obtain ⟨tags, htags, hlists⟩ := h
  cases htags
  have hmem : (if item.fingerprint = "one" then [1] else [2]) ∈ [ciphertext] := List.contains_iff_mem.mp hlists
  exact (List.mem_singleton.mp hmem).symm

theorem twoKeys_alike : twoKeys.ListedAlike := by
  intro items item item' ciphertext plaintext hlist hitem hitem' hlists hlists' hopens
  cases hlist
  have hsame := (twoKeys_lists hlists).symm.trans (twoKeys_lists hlists')
  simp only [List.mem_cons, List.not_mem_nil, or_false] at hitem hitem'
  rcases hitem with rfl | rfl <;> rcases hitem' with rfl | rfl
  · exact hopens
  · simp at hsame
  · simp at hsame
  · exact hopens

theorem twoKeys_opens {ciphertext : List UInt8} (h : ciphertext = [1] ∨ ciphertext = [2]) :
    decryptSecret (AgeCommandProvider.cryptoProvider twoKeys ⟨true, .onePassword⟩) (tokenRecord ciphertext).1
      (tokenRecord ciphertext).2 = .ok [7] := by
  have hlength : tokenInner.length = 51 := by
    rw [tokenInner, encodeInner_length]
    decide
  have hsmall : tokenInner.length ≤ maxPlaintextSize := by
    rw [hlength]
    decide
  have hsmall' : tokenInner.length ≤ maxCiphertextSize := by
    rw [hlength]
    decide
  have hdecrypt : AgeCommandProvider.decrypt twoKeys ⟨true, .onePassword⟩ ciphertext = .ok tokenInner := by
    apply (AgeCommandProvider.decrypt_launched rfl).mpr
    rcases h with rfl | rfl
    · exact ⟨by decide, hsmall, .key [1], by rfl, Launcher.runInput_ok.mpr ⟨rfl, hsmall', rfl⟩⟩
    · exact ⟨by decide, hsmall, .key [2], by rfl, Launcher.runInput_ok.mpr ⟨rfl, hsmall', rfl⟩⟩
  have hrecord : validateRecord (tokenRecord ciphertext).2 = .ok () := by
    rcases h with rfl | rfl <;> decide
  have hvalid : validateIdentifier "web.services.mail.token" = .ok () := by decide
  refine decryptSecret_ok.mpr ⟨⟨hvalid, hrecord⟩, tokenInner, hdecrypt, ?_⟩
  exact decodeInner_encodeInner hvalid (by decide)

/-- Two records for two keys of the account decrypt alone, but not as one batch. -/
theorem mixed_keys_not_batched :
    let provider := AgeCommandProvider.cryptoProvider twoKeys ⟨true, .onePassword⟩
    twoKeys.ListedAlike ∧
      decryptSecret provider (tokenRecord [1]).1 (tokenRecord [1]).2 = .ok [7] ∧
      decryptSecret provider (tokenRecord [2]).1 (tokenRecord [2]).2 = .ok [7] ∧
      ¬ ∃ values, decryptSecrets provider [tokenRecord [1], tokenRecord [2]] = .ok values := by
  refine ⟨twoKeys_alike, twoKeys_opens (Or.inl rfl), twoKeys_opens (Or.inr rfl), ?_⟩
  rintro ⟨values, h⟩
  obtain ⟨_, hbatched⟩ := (decryptSecrets_batched twoKeys_alike _ _).mp h
  obtain ⟨_, _, hshare⟩ := hbatched rfl (by simp)
  obtain ⟨items, hlist, item, hitem, hlists⟩ := hshare rfl
  have hfirst := twoKeys_lists (hlists [1] (by simp [tokenRecord]))
  have hsecond := twoKeys_lists (hlists [2] (by simp [tokenRecord]))
  have hsame := hfirst.trans hsecond.symm
  simp at hsame

theorem one_key_batched :
    decryptSecrets (AgeCommandProvider.cryptoProvider twoKeys ⟨true, .onePassword⟩) [tokenRecord [1]] =
      .ok [[7]] := by
  apply ((secret_format_binding twoKeys ⟨true, .onePassword⟩ twoKeys_alike).2.2.2.2 _ _).mpr
  refine ⟨List.Forall₂.cons (twoKeys_opens (Or.inl rfl)) List.Forall₂.nil, ?_⟩
  intro _ _
  refine ⟨⟨by decide, by decide⟩, by decide, ?_⟩
  intro _
  refine ⟨_, rfl, ⟨"vault", "first", "", "one"⟩, List.mem_cons_self, ?_⟩
  intro ciphertext hmem
  rw [List.mem_singleton.mp hmem]
  exact ⟨[[1]], rfl, rfl⟩

end NixSecrets.Crypto
