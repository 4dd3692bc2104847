import NixSecrets.DecryptBatch

namespace NixSecrets.Crypto

namespace Launcher

/-- What is read as a batch starts with the encoding of the inputs, which keep the limits. -/
theorem readFrames_ok {fuel total : Nat} {inputs result : List (List UInt8)} {bytes : List UInt8}
    (h : readFrames fuel inputs total bytes = .ok result) (hfuel : bytes.length ≤ fuel)
    (hinputs : inputs.length ≤ maxBatch) (htotal : total ≤ maxBatchBytes) :
    ∃ more tail, result = inputs ++ more ∧ bytes = prefixedAll 4 more ++ tail ∧ tail.length < 4 ∧
      result.length ≤ maxBatch ∧ total + (more.map List.length).sum ≤ maxBatchBytes ∧
      ∀ input ∈ more, input.length ≤ maxInput := by
  induction fuel generalizing total inputs bytes with
  | zero =>
    have hempty : bytes = [] := List.length_eq_zero_iff.mp (Nat.le_zero.mp hfuel)
    cases h
    exact ⟨[], [], by simp, by rw [hempty]; rfl, by simp, hinputs, by simpa using htotal,
      fun _ hmem => absurd hmem List.not_mem_nil⟩
  | succ fuel ih =>
    rw [readFrames] at h
    cases hlength : byteRange bytes 0 4 with
    | none =>
      simp only [hlength] at h
      cases h
      refine ⟨[], bytes, by simp, rfl, ?_, hinputs, by simpa using htotal,
        fun _ hmem => absurd hmem List.not_mem_nil⟩
      apply Nat.lt_of_not_le
      intro hlong
      have hsome := byteRange_isSome (Nat.zero_le 4) hlong
      rw [hlength] at hsome
      cases hsome
    | some length =>
      simp only [hlength] at h
      split at h
      next => cases h
      next hroom =>
        rw [not_or, not_or] at hroom
        obtain ⟨hsmall, hcount, hbytes⟩ := hroom
        cases hbody : byteRange bytes 4 (4 + readBigEndian length) with
        | none =>
          simp only [hbody] at h
          cases h
        | some body =>
          simp only [hbody] at h
          have hfour := byteRange_length hlength
          have hsize := byteRange_length hbody
          have hfront := byteRange_split hlength
          have hrest := byteRange_drop hbody
          have hbodyLength : body.length = readBigEndian length := by omega
          have hencoded : bigEndian 4 body.length = length := by
            have hsame := bigEndian_readBigEndian length
            rw [hfour.1] at hsame
            rw [hbodyLength]
            exact hsame
          have hmore : (inputs ++ [body]).length ≤ maxBatch := by
            rw [List.length_append, List.length_singleton]
            omega
          have hleft : (bytes.drop (4 + readBigEndian length)).length ≤ fuel := by
            rw [List.length_drop]
            omega
          obtain ⟨more, tail, hresult, hsplit, htail, hfits, hsum, hinput⟩ := ih h hleft hmore (by omega)
          refine ⟨body :: more, tail, by rw [hresult]; simp, ?_, htail, hfits, ?_, ?_⟩
          · rw [prefixedAll_cons, prefixed, hencoded, List.append_assoc, List.append_assoc, ← hsplit, ← hrest]
            simpa using hfront
          · rw [List.map_cons, List.sum_cons, hbodyLength]
            omega
          · intro input hmem
            rcases List.mem_cons.mp hmem with heq | hmem
            · rw [heq, hbodyLength]
              omega
            · exact hinput input hmem

theorem readBatch_ok {bytes : List UInt8} {inputs : List (List UInt8)} (h : readBatch bytes = .ok inputs) :
    inputs ≠ [] ∧ Fits inputs ∧ (∀ input ∈ inputs, input.length ≤ maxInput) ∧
      ∃ tail, tail.length < 4 ∧ bytes = prefixedAll 4 inputs ++ tail := by
  rw [readBatch] at h
  cases hread : readFrames bytes.length [] 0 bytes with
  | error message =>
    rw [hread] at h
    cases h
  | ok result =>
    rw [hread] at h
    by_cases hempty : result = []
    · simp only [bind, Except.bind, hempty, if_true] at h
      cases h
    · simp only [bind, Except.bind, hempty, if_false] at h
      cases h
      obtain ⟨more, tail, hresult, hsplit, htail, hcount, hsum, hinput⟩ :=
        readFrames_ok hread (Nat.le_refl _) (Nat.zero_le _) (Nat.zero_le _)
      rw [List.nil_append] at hresult
      rw [← hresult] at hsplit hsum hinput
      rw [Nat.zero_add] at hsum
      exact ⟨hempty, ⟨hcount, hsum⟩, hinput, tail, htail, hsplit⟩

section

variable {programs : Programs} {identity : Identity}

/-- The launcher stops with the code of the first input that fails, if the outputs before it fit. -/
theorem runWaves_first {acc : List UInt8} {waves : List (List (List UInt8))} {front rest : List (List UInt8)}
    {input : List UInt8} {values : List (List UInt8)} {code : UInt8}
    (hwaves : waves.flatten = front ++ input :: rest)
    (hfront : front.mapM (runInput programs identity) = .ok values)
    (hinput : runInput programs identity input = .error code)
    (hfits : (acc ++ prefixedAll 4 values).length ≤ maxBatchBytes) :
    runWaves programs identity acc waves = .error code := by
  induction waves generalizing acc front values with
  | nil => simp at hwaves
  | cons wave waves ih =>
    rw [List.flatten_cons] at hwaves
    rw [runWaves, orderedParallel_eq]
    cases hwave : wave.mapM (runInput programs identity) with
    | error code' =>
      have hall : (wave ++ waves.flatten).mapM (runInput programs identity) = .error code := by
        rw [hwaves]
        exact mapM_error_iff.mpr ⟨front, input, rest, values, rfl, hfront, hinput⟩
      rw [List.mapM_append, hwave] at hall
      cases hall
      rfl
    | ok outputs =>
      have hsplit : ∃ more, front = wave ++ more ∧ waves.flatten = more ++ input :: rest := by
        rcases List.append_eq_append_iff.mp hwaves with ⟨more, hmore, hrest⟩ | ⟨more, hmore, hrest⟩
        · exact ⟨more, hmore, hrest⟩
        · cases more with
          | nil => exact ⟨[], by rw [hmore, List.append_nil, List.append_nil], hrest.symm⟩
          | cons first more =>
            have hfirst : input = first := (List.cons.inj hrest).1
            have hfailed : wave.mapM (runInput programs identity) = .error code :=
              mapM_error_iff.mpr ⟨front, input, more, values, by rw [hmore, hfirst], hfront, hinput⟩
            rw [hwave] at hfailed
            cases hfailed
      obtain ⟨more, rfl, hmore⟩ := hsplit
      rw [List.mapM_append, hwave] at hfront
      cases hvalues : more.mapM (runInput programs identity) with
      | error code' =>
        rw [hvalues] at hfront
        cases hfront
      | ok later =>
        rw [hvalues] at hfront
        cases hfront
        rw [prefixedAll_append, ← List.append_assoc] at hfits
        have hroom : (acc ++ prefixedAll 4 outputs).length ≤ maxBatchBytes := by
          rw [List.length_append] at hfits
          omega
        have hacc : acc.length ≤ maxBatchBytes := by
          rw [List.length_append] at hroom
          omega
        have happend := (outputsAppend_ok (runInputs_short hwave) hacc).mpr ⟨hroom, rfl⟩
        show (outputsAppend acc outputs >>= _) = _
        rw [happend]
        exact ih hmore hvalues hfits

theorem runBatch_first {inputs front rest values : List (List UInt8)} {input : List UInt8} {code : UInt8}
    (hinputs : inputs = front ++ input :: rest) (hfront : front.mapM (runInput programs identity) = .ok values)
    (hinput : runInput programs identity input = .error code)
    (hfits : (prefixedAll 4 values).length ≤ maxBatchBytes) :
    runBatch programs identity inputs = ⟨[], programs.batchLog identity inputs, .exited code⟩ := by
  have hflat : (chunks programs.workers inputs).flatten = front ++ input :: rest := by
    rw [chunks_flatten, hinputs]
  have hrun : runWaves programs identity [] (chunks programs.workers inputs) = .error code :=
    runWaves_first hflat hfront hinput hfits
  rw [runBatch, hrun]

end

end Launcher

/-- One file through age alone. -/
def plainDecrypt (programs : Programs) (identity : Identity) (ciphertext : List UInt8) :
    Checked CryptoError (List UInt8) := do
  Checked.refuseIf (maxCiphertextSize < ciphertext.length) .secretTooLarge
  AgeCommandProvider.runWith (programs.age identity ciphertext) maxPlaintextSize

namespace AgeCommandProvider

variable {programs : Programs} {identity : Identity}

/-- Without the launcher a provider runs age alone on each file. -/
theorem decrypt_plain (mode : DecryptionMode) (ciphertext : List UInt8) :
    decrypt programs ⟨false, mode⟩ ciphertext =
      plainDecrypt programs (AgeCommandProvider.identity ⟨false, mode⟩) ciphertext := by
  rw [decrypt, plainDecrypt]
  simp

theorem plainDecrypt_ok {ciphertext plaintext : List UInt8} :
    plainDecrypt programs identity ciphertext = .ok plaintext ↔
      ciphertext.length ≤ maxCiphertextSize ∧ (programs.age identity ciphertext).success ∧
        (programs.age identity ciphertext).stdout = plaintext ∧ plaintext.length ≤ maxPlaintextSize := by
  rw [← runWith_ok]
  constructor
  · intro h
    obtain ⟨_, hsize, h⟩ := Checked.bind_ok h
    exact ⟨Nat.le_of_not_lt (Checked.refuseIf_ok hsize), h⟩
  · rintro ⟨hsize, h⟩
    rw [plainDecrypt, Checked.refuseIf_of_not _ (Nat.not_lt_of_le hsize), Checked.ok_bind, h]

theorem plainDecrypt_failed {ciphertext : List UInt8} {failure : AgeFailure}
    (h : plainDecrypt programs identity ciphertext = Checked.refuse (.ageFailed failure)) :
    ¬ (programs.age identity ciphertext).success ∧
      failure = .new (programs.age identity ciphertext).status (programs.age identity ciphertext).stderr := by
  rw [plainDecrypt, Checked.refuseIf] at h
  split at h
  next => cases h
  next =>
    rw [Checked.ok_bind, runWith, Checked.refuseIf] at h
    split at h
    next => cases h
    next =>
      rw [Checked.ok_bind, Checked.refuseIf] at h
      split at h
      next hfailed =>
        cases h
        exact ⟨hfailed, rfl⟩
      next => cases h

theorem plainDecrypt_all {ciphertexts plaintexts : List (List UInt8)}
    (h : ciphertexts.mapM (plainDecrypt programs identity) = .ok plaintexts) :
    ciphertexts.mapM (Launcher.runInput programs identity) = .ok plaintexts ∧
      ∀ plaintext ∈ plaintexts, plaintext.length ≤ maxPlaintextSize := by
  have hall := mapM_ok_iff.mp h
  constructor
  · refine mapM_ok_iff.mpr (hall.imp fun c p hrun => ?_)
    obtain ⟨_, hsuccess, hstdout, hlimit⟩ := plainDecrypt_ok.mp hrun
    exact Launcher.runInput_ok.mpr
      ⟨hsuccess, Nat.le_trans hlimit (Nat.le_add_right maxPlaintextSize (1024 * 1024)), hstdout⟩
  · intro plaintext hmem
    obtain ⟨_, _, hrun⟩ := forall₂_mem_right hall plaintext hmem
    exact (plainDecrypt_ok.mp hrun).2.2.2

theorem runWith_failed {stderr : List Char} {code : UInt8} (limit : Nat) (h : code ≠ 0) :
    runWith ⟨[], stderr, .exited code⟩ limit =
      Checked.refuse (.ageFailed (.new (.exited code) stderr)) := by
  have hfailed : ¬ (⟨[], stderr, .exited code⟩ : Exit).success := fun heq => h (ExitStatus.exited.inj heq)
  have hsmall : ¬ limit < (⟨[], stderr, .exited code⟩ : Exit).stdout.length := Nat.not_lt_of_le (Nat.zero_le limit)
  rw [runWith, Checked.refuseIf_of_not _ hsmall, Checked.ok_bind, Checked.refuseIf, if_pos hfailed]
  rfl

variable {mode : DecryptionMode} {ciphertexts : List (List UInt8)}

theorem decryptBatch_launcher (hne : ciphertexts ≠ [])
    (hshort : ∀ ciphertext ∈ ciphertexts, ciphertext.length ≤ maxCiphertextSize) :
    decryptBatch programs ⟨true, mode⟩ ciphertexts = launcherBatch programs ⟨true, mode⟩ ciphertexts := by
  have hlarge : ¬ ∃ ciphertext ∈ ciphertexts, maxCiphertextSize < ciphertext.length := by
    rintro ⟨ciphertext, hmem, hlong⟩
    exact absurd (hshort ciphertext hmem) (Nat.not_le_of_lt hlong)
  rw [decryptBatch, Checked.refuseIf_of_not _ hlarge, Checked.ok_bind, if_neg hne, if_neg (by simp)]

theorem launcherBatch_failed {stderr : List Char} {code : UInt8} (hcode : code ≠ 0)
    (h : Launcher.batch programs mode (prefixedAll 4 ciphertexts) = ⟨[], stderr, .exited code⟩) :
    launcherBatch programs ⟨true, mode⟩ ciphertexts =
      Checked.refuse (.ageFailed (.new (.exited code) stderr)) := by
  rw [launcherBatch, h, runWith_failed _ hcode]
  rfl

end AgeCommandProvider

/-- Through the launcher, the files come out as they do of age alone, with the identity of the batch. -/
structure Launcher.Agrees (programs : Programs) (mode : DecryptionMode) (identity : Identity)
    (ciphertexts : List (List UInt8)) : Prop where
  values : ∀ plaintexts, ciphertexts.mapM (plainDecrypt programs identity) = .ok plaintexts →
    (prefixedAll 4 plaintexts).length ≤ maxBatchBytes →
    AgeCommandProvider.decryptBatch programs ⟨true, mode⟩ ciphertexts = .ok plaintexts
  accepted : ∀ plaintexts, AgeCommandProvider.decryptBatch programs ⟨true, mode⟩ ciphertexts = .ok plaintexts →
    List.Forall₂ (fun c p => (programs.age identity c).success ∧ (programs.age identity c).stdout = p)
      ciphertexts plaintexts ∧
    ((∀ plaintext ∈ plaintexts, plaintext.length ≤ maxPlaintextSize) →
      ciphertexts.mapM (plainDecrypt programs identity) = .ok plaintexts)
  failed : ∀ front ciphertext rest outputs failure, ciphertexts = front ++ ciphertext :: rest →
    front.mapM (plainDecrypt programs identity) = .ok outputs →
    plainDecrypt programs identity ciphertext = Checked.refuse (.ageFailed failure) →
    (prefixedAll 4 outputs).length ≤ maxBatchBytes →
    ∃ status, failure.status = describeStatus status ∧
      AgeCommandProvider.decryptBatch programs ⟨true, mode⟩ ciphertexts = Checked.refuse
        (.ageFailed (.new (.exited (exitCode status)) (programs.batchLog identity ciphertexts)))

theorem decryptBatch_agree_of_identity {programs : Programs} {mode : DecryptionMode} {identity : Identity}
    {ciphertexts : List (List UInt8)} (hne : ciphertexts ≠ [])
    (hshort : ∀ ciphertext ∈ ciphertexts, ciphertext.length ≤ maxCiphertextSize) (hfits : Launcher.Fits ciphertexts)
    (hidentity : Launcher.identityOf programs mode ciphertexts = .ok identity) :
    Launcher.Agrees programs mode identity ciphertexts := by
  have hbatch : AgeCommandProvider.decryptBatch programs ⟨true, mode⟩ ciphertexts =
      AgeCommandProvider.launcherBatch programs ⟨true, mode⟩ ciphertexts :=
    AgeCommandProvider.decryptBatch_launcher hne hshort
  constructor
  · intro plaintexts hplain htotal
    obtain ⟨hrun, hsmall⟩ := AgeCommandProvider.plainDecrypt_all hplain
    have hcount := (mapM_ok_iff.mp hplain).length_eq
    rw [hbatch]
    refine (AgeCommandProvider.launcherBatch_ok hne hshort).mpr ⟨identity, hidentity, hfits, hrun, htotal, ?_⟩
    rw [hcount]
    exact prefixedAll_bounded hsmall
  · intro plaintexts h
    rw [hbatch] at h
    obtain ⟨identity', hidentity', _, hrun, _, _⟩ := (AgeCommandProvider.launcherBatch_ok hne hshort).mp h
    cases hidentity.symm.trans hidentity'
    have hall := mapM_ok_iff.mp hrun
    refine ⟨hall.imp fun c p h => ?_, fun hsmall => ?_⟩
    · obtain ⟨hsuccess, _, hstdout⟩ := Launcher.runInput_ok.mp h
      exact ⟨hsuccess, hstdout⟩
    · have hmembers := (List.forall₂_and_left ciphertexts plaintexts).mpr ⟨fun c hc => hc, hall⟩
      have hboth := (List.forall₂_and_left plaintexts ciphertexts).mpr ⟨hsmall, hmembers.flip⟩
      refine mapM_ok_iff.mpr (hboth.flip.imp ?_)
      rintro c p ⟨hlimit, hmem, h⟩
      obtain ⟨hsuccess, _, hstdout⟩ := Launcher.runInput_ok.mp h
      exact AgeCommandProvider.plainDecrypt_ok.mpr ⟨hshort c hmem, hsuccess, hstdout, hlimit⟩
  · intro front ciphertext rest outputs failure hsplit hfront hfailed htotal
    obtain ⟨hstatus, rfl⟩ := AgeCommandProvider.plainDecrypt_failed hfailed
    refine ⟨(programs.age identity ciphertext).status, rfl, ?_⟩
    have hinput : Launcher.runInput programs identity ciphertext =
        .error (exitCode (programs.age identity ciphertext).status) := if_pos hstatus
    have hread := (Launcher.readBatch_prefixedAll hne hshort).mpr ⟨hfits, rfl⟩
    have hrun := Launcher.runBatch_first hsplit (AgeCommandProvider.plainDecrypt_all hfront).1 hinput htotal
    rw [hbatch]
    apply AgeCommandProvider.launcherBatch_failed (Launcher.exitCode_ne_zero hstatus)
    simp only [Launcher.batch, hread, hidentity, hrun]

theorem decryptBatch_refused {programs : Programs} {mode : DecryptionMode} {ciphertexts : List (List UInt8)}
    (hne : ciphertexts ≠ []) (hshort : ∀ ciphertext ∈ ciphertexts, ciphertext.length ≤ maxCiphertextSize)
    (hfits : ¬ Launcher.Fits ciphertexts) :
    AgeCommandProvider.decryptBatch programs ⟨true, mode⟩ ciphertexts = Checked.refuse
      (.ageFailed (.new (.exited 2) (Exit.failed 2 "the batch is too large").stderr)) := by
  have hread : Launcher.readBatch (prefixedAll 4 ciphertexts) = .error "the batch is too large" := by
    have hframes := @Launcher.readFrames_prefixedAll (prefixedAll 4 ciphertexts).length 0 [] ciphertexts
      (Nat.le_refl _) hshort (Nat.zero_le _)
    simp only [hne, false_or, List.length_nil, Nat.zero_add, List.nil_append] at hframes
    have hover : ¬ (ciphertexts.length ≤ Launcher.maxBatch ∧
        (ciphertexts.map List.length).sum ≤ Launcher.maxBatchBytes) := hfits
    rw [if_neg hover] at hframes
    rw [Launcher.readBatch, hframes]
    rfl
  rw [AgeCommandProvider.decryptBatch_launcher hne hshort]
  apply AgeCommandProvider.launcherBatch_failed (by decide)
  rw [Launcher.batch, hread]
  rfl

theorem decryptBatch_unauthorized {programs : Programs} {mode : DecryptionMode} {ciphertexts : List (List UInt8)}
    {message : String} (hne : ciphertexts ≠ [])
    (hshort : ∀ ciphertext ∈ ciphertexts, ciphertext.length ≤ maxCiphertextSize) (hfits : Launcher.Fits ciphertexts)
    (hidentity : Launcher.identityOf programs mode ciphertexts = .error message) :
    AgeCommandProvider.decryptBatch programs ⟨true, mode⟩ ciphertexts = Checked.refuse (.ageFailed
      (.new (.exited 77) (Launcher.oneKeyProgress mode ciphertexts ++ (Exit.failed 77 message).stderr))) := by
  have hread := (Launcher.readBatch_prefixedAll hne hshort).mpr ⟨hfits, rfl⟩
  rw [AgeCommandProvider.decryptBatch_launcher hne hshort]
  apply AgeCommandProvider.launcherBatch_failed (by decide)
  simp only [Launcher.batch, hread, hidentity]
  rfl

/-- A batch the launcher takes decrypts as its files do one by one, and what the launcher reads as a batch is
what was written as one. -/
theorem decryptBatch_agrees (programs : Programs) (mode : DecryptionMode) (ciphertexts : List (List UInt8))
    (hshort : ∀ ciphertext ∈ ciphertexts, ciphertext.length ≤ maxCiphertextSize) :
    (ciphertexts = [] → AgeCommandProvider.decryptBatch programs ⟨true, mode⟩ ciphertexts = .ok []) ∧
    (ciphertexts ≠ [] → ¬ Launcher.Fits ciphertexts →
      AgeCommandProvider.decryptBatch programs ⟨true, mode⟩ ciphertexts = Checked.refuse
        (.ageFailed (.new (.exited 2) (Exit.failed 2 "the batch is too large").stderr))) ∧
    (ciphertexts ≠ [] → Launcher.Fits ciphertexts →
      (∀ message, Launcher.identityOf programs mode ciphertexts = .error message →
        AgeCommandProvider.decryptBatch programs ⟨true, mode⟩ ciphertexts = Checked.refuse (.ageFailed
          (.new (.exited 77) (Launcher.oneKeyProgress mode ciphertexts ++ (Exit.failed 77 message).stderr)))) ∧
      (∀ identity, Launcher.identityOf programs mode ciphertexts = .ok identity →
        Launcher.Agrees programs mode identity ciphertexts)) ∧
    (∀ plain ciphertext, AgeCommandProvider.decrypt programs ⟨false, plain⟩ ciphertext =
      plainDecrypt programs (AgeCommandProvider.identity ⟨false, plain⟩) ciphertext) ∧
    (ciphertexts ≠ [] → ∀ result,
      Launcher.readBatch (prefixedAll 4 ciphertexts) = .ok result ↔ Launcher.Fits ciphertexts ∧ result = ciphertexts) ∧
    (∀ bytes inputs, Launcher.readBatch bytes = .ok inputs →
      inputs ≠ [] ∧ Launcher.Fits inputs ∧ (∀ input ∈ inputs, input.length ≤ Launcher.maxInput) ∧
        ∃ tail, tail.length < 4 ∧ bytes = prefixedAll 4 inputs ++ tail) := by
  refine ⟨?_, fun hne hfits => decryptBatch_refused hne hshort hfits, fun hne hfits => ⟨?_, ?_⟩,
    AgeCommandProvider.decrypt_plain, fun hne _ => Launcher.readBatch_prefixedAll hne hshort,
    fun _ _ h => Launcher.readBatch_ok h⟩
  · intro hempty
    rw [hempty]
    rfl
  · intro message hidentity
    exact decryptBatch_unauthorized hne hshort hfits hidentity
  · intro identity hidentity
    exact decryptBatch_agree_of_identity hne hshort hfits hidentity

/-- An age that hands on what it reads, unless it is told to fail. -/
def echoPrograms : Programs where
  age _ input := if input = [0] then ⟨[], "age: error: bad".toList, .exited 1⟩ else ⟨input, [], .exited 0⟩
  authorize := .ok ()
  list := .ok []
  read _ := .ok []
  stanzaTags _ := none
  fingerprintTag _ := none
  batchLog _ _ := "age: error: bad".toList
  workers := 2

theorem decryptBatch_echoed :
    AgeCommandProvider.decryptBatch echoPrograms ⟨true, .identityFile "key"⟩ [[1], [], [2]] =
      .ok [[1], [], [2]] := by
  have hfits : Launcher.Fits [[1], [], [2]] := ⟨by decide, by decide⟩
  have hagrees := ((decryptBatch_agrees echoPrograms (.identityFile "key") [[1], [], [2]] (by decide)).2.2.1
    (List.cons_ne_nil _ _) hfits).2 (.file "key") rfl
  exact hagrees.values _ (by decide) (by decide)

/-- More files than a batch may carry decrypt one by one, and bytes behind the last file are read over. -/
theorem fullBatch_refused :
    let ciphertexts := List.replicate 257 [1]
    (∀ ciphertext ∈ ciphertexts, ciphertext.length ≤ maxCiphertextSize) ∧
      ciphertexts.mapM (plainDecrypt echoPrograms (.file "key")) = .ok ciphertexts ∧
      AgeCommandProvider.decryptBatch echoPrograms ⟨true, .identityFile "key"⟩ ciphertexts ≠ .ok ciphertexts ∧
      Launcher.readBatch [0, 0, 0, 1, 7, 0] = .ok [[7]] ∧
      ∀ inputs, (∀ input ∈ inputs, input.length ≤ maxCiphertextSize) → prefixedAll 4 inputs ≠ [0, 0, 0, 1, 7, 0] := by
  refine ⟨?_, ?_, ?_, by decide, ?_⟩
  · intro ciphertext hmem
    rw [List.eq_of_mem_replicate hmem]
    decide
  · refine mapM_ok_iff.mpr (List.forall₂_same.mpr fun ciphertext hmem => ?_)
    rw [List.eq_of_mem_replicate hmem]
    decide
  · have hshort : ∀ ciphertext ∈ List.replicate 257 [(1 : UInt8)], ciphertext.length ≤ maxCiphertextSize := by
      intro ciphertext hmem
      rw [List.eq_of_mem_replicate hmem]
      decide
    have hfits : ¬ Launcher.Fits (List.replicate 257 [1]) := by
      intro h
      have hcount := h.1
      rw [List.length_replicate, Launcher.maxBatch] at hcount
      omega
    have hne : List.replicate 257 [(1 : UInt8)] ≠ [] := List.cons_ne_nil _ _
    rw [decryptBatch_refused hne hshort hfits]
    intro hsame
    cases hsame
  · intro inputs hshort h
    cases inputs with
    | nil => cases h
    | cons input inputs =>
      have hinput := hshort input List.mem_cons_self
      have hbytes : input.length < 256 ^ 4 := by
        rw [maxCiphertextSize_eq] at hinput
        omega
      have hwhole : prefixed 4 input ++ prefixedAll 4 inputs = prefixed 4 [7] ++ [0] := h
      obtain ⟨_, hrest⟩ := prefixed_append_inj hbytes (by decide) hwhole
      cases inputs with
      | nil => cases hrest
      | cons next inputs =>
        have hlength := congrArg List.length hrest
        rw [prefixedAll_cons, List.length_append, prefixed_length, List.length_singleton] at hlength
        omega

end NixSecrets.Crypto
