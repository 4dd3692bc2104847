import NixSecrets.Decryption

namespace NixSecrets.Crypto

theorem maxPlaintextSize_eq : maxPlaintextSize = 16781339 := by decide

theorem maxCiphertextSize_eq : maxCiphertextSize = 17829915 := by decide

theorem prefixed_length (value : List UInt8) : (prefixed 4 value).length = value.length + 4 := by
  rw [prefixed, List.length_append, bigEndian_length]
  omega

theorem prefixedAll_cons (width : Nat) (value : List UInt8) (values : List (List UInt8)) :
    prefixedAll width (value :: values) = prefixed width value ++ prefixedAll width values := rfl

theorem prefixedAll_append (width : Nat) (values values' : List (List UInt8)) :
    prefixedAll width (values ++ values') = prefixedAll width values ++ prefixedAll width values' :=
  List.flatMap_append

theorem prefixedAll_bounded {limit : Nat} {values : List (List UInt8)}
    (h : ∀ value ∈ values, value.length ≤ limit) :
    (prefixedAll 4 values).length ≤ values.length * (limit + 4) := by
  induction values with
  | nil => exact Nat.zero_le _
  | cons value values ih =>
    have hvalue := h value List.mem_cons_self
    have hrest := ih fun x hx => h x (List.mem_cons_of_mem value hx)
    rw [prefixedAll_cons, List.length_append, prefixed_length, List.length_cons, Nat.succ_mul]
    omega

/-- The first of several values is read back from behind its length. -/
theorem prefixed_front {value : List UInt8} (h : value.length < 256 ^ 4) (rest : List UInt8) :
    byteRange (prefixed 4 value ++ rest) 0 4 = some (bigEndian 4 value.length) ∧
      readBigEndian (bigEndian 4 value.length) = value.length ∧
      byteRange (prefixed 4 value ++ rest) 4 (4 + value.length) = some value ∧
      bytesFrom (prefixed 4 value ++ rest) (4 + value.length) = some rest := by
  have hfour := bigEndian_length 4 value.length
  have hlength := byteRange_append [] (bigEndian 4 value.length) (value ++ rest)
  have hvalue := byteRange_append (bigEndian 4 value.length) value rest
  have hrest := bytesFrom_append (prefixed 4 value) rest
  rw [List.nil_append, List.length_nil, Nat.zero_add, hfour] at hlength
  rw [hfour] at hvalue
  rw [prefixed, List.length_append, hfour] at hrest
  rw [prefixed, List.append_assoc]
  rw [List.append_assoc] at hrest
  exact ⟨hlength, readBigEndian_bigEndian h, hvalue, hrest⟩

namespace Launcher

/-- The inputs a batch may carry, each of which may be as long as a ciphertext. -/
def Fits (inputs : List (List UInt8)) : Prop :=
  inputs.length ≤ maxBatch ∧ (inputs.map List.length).sum ≤ maxBatchBytes

theorem readFrames_prefixedAll {fuel total : Nat} {inputs rest : List (List UInt8)}
    (hfuel : (prefixedAll 4 rest).length ≤ fuel) (hshort : ∀ input ∈ rest, input.length ≤ maxCiphertextSize)
    (hinputs : inputs.length ≤ maxBatch) :
    readFrames fuel inputs total (prefixedAll 4 rest) =
      if inputs.length + rest.length ≤ maxBatch ∧
        (rest = [] ∨ total + (rest.map List.length).sum ≤ maxBatchBytes)
      then .ok (inputs ++ rest) else .error "the batch is too large" := by
  induction rest generalizing fuel inputs total with
  | nil =>
    rw [List.length_nil, if_pos ⟨hinputs, Or.inl rfl⟩, List.append_nil]
    cases fuel with
    | zero => rfl
    | succ fuel => rfl
  | cons input rest ih =>
    rw [prefixedAll_cons, List.length_append, prefixed_length] at hfuel
    obtain ⟨fuel, rfl⟩ : ∃ n, fuel = n + 1 := ⟨fuel - 1, by omega⟩
    have hsmall := hshort input List.mem_cons_self
    rw [maxCiphertextSize_eq] at hsmall
    have hbytes : input.length < 256 ^ 4 := by omega
    have hinput : ¬ maxInput < input.length := by
      rw [maxInput]
      omega
    obtain ⟨hlength, hread, hvalue, htail⟩ := prefixed_front hbytes (prefixedAll 4 rest)
    rw [prefixedAll_cons, readFrames, hlength]
    simp only [hread, hvalue, bytesFrom_drop htail, List.map_cons, List.sum_cons, List.length_cons]
    by_cases hfull : inputs.length = maxBatch ∨ maxBatchBytes < total + input.length
    · have hbad : ¬ (inputs.length + (rest.length + 1) ≤ maxBatch ∧
          (input :: rest = [] ∨ total + (input.length + (rest.map List.length).sum) ≤ maxBatchBytes)) := by
        rintro ⟨hcount, hnil | htotal⟩
        · cases hnil
        · omega
      rw [if_pos (Or.inr hfull), if_neg hbad]
    · rw [not_or] at hfull
      have hroom : ¬ (maxInput < input.length ∨ inputs.length = maxBatch ∨
          maxBatchBytes < total + input.length) := by omega
      have hmore : (inputs ++ [input]).length ≤ maxBatch := by
        rw [List.length_append, List.length_singleton]
        omega
      rw [if_neg hroom, ih (by omega) (fun x hx => hshort x (List.mem_cons_of_mem input hx)) hmore,
        List.length_append, List.length_singleton, List.append_assoc]
      congr 1
      apply propext
      have hne : input :: rest ≠ [] := List.cons_ne_nil _ _
      simp only [hne, false_or]
      constructor
      · rintro ⟨hcount, rfl | htotal⟩
        · simp only [List.length_nil, List.map_nil, List.sum_nil] at hcount ⊢
          omega
        · omega
      · rintro ⟨hcount, htotal⟩
        exact ⟨by omega, Or.inr (by omega)⟩

theorem readBatch_prefixedAll {inputs result : List (List UInt8)} (hinputs : inputs ≠ [])
    (hshort : ∀ input ∈ inputs, input.length ≤ maxCiphertextSize) :
    readBatch (prefixedAll 4 inputs) = .ok result ↔ Fits inputs ∧ result = inputs := by
  have hread := @readFrames_prefixedAll (prefixedAll 4 inputs).length 0 [] inputs (Nat.le_refl _) hshort
    (Nat.zero_le _)
  rw [readBatch, hread]
  simp only [hinputs, false_or, List.length_nil, Nat.zero_add, List.nil_append]
  by_cases hfits : inputs.length ≤ maxBatch ∧ (inputs.map List.length).sum ≤ maxBatchBytes
  · rw [if_pos hfits]
    show (if inputs = [] then _ else Except.ok inputs) = Except.ok result ↔ _
    rw [if_neg hinputs]
    constructor
    · intro h
      cases h
      exact ⟨hfits, rfl⟩
    · intro h
      rw [h.2]
  · rw [if_neg hfits]
    constructor
    · intro h
      cases h
    · intro h
      exact absurd h.1 hfits

theorem outputsAppend_ok {outputs result : List UInt8} {values : List (List UInt8)}
    (hshort : ∀ value ∈ values, value.length < 256 ^ 4) (hfits : outputs.length ≤ maxBatchBytes) :
    outputsAppend outputs values = .ok result ↔
      (outputs ++ prefixedAll 4 values).length ≤ maxBatchBytes ∧ result = outputs ++ prefixedAll 4 values := by
  induction values generalizing outputs with
  | nil =>
    rw [outputsAppend, show prefixedAll 4 [] = [] from rfl, List.append_nil]
    exact ⟨fun h => by cases h; exact ⟨hfits, rfl⟩, fun h => by rw [h.2]⟩
  | cons value values ih =>
    have hvalue := hshort value List.mem_cons_self
    have hsize := prefixed_length value
    rw [outputsAppend, if_neg (by omega), prefixedAll_cons, ← List.append_assoc]
    by_cases hroom : maxBatchBytes < outputs.length + value.length + 4
    · rw [if_pos hroom]
      constructor
      · intro h
        cases h
      · rintro ⟨htotal, _⟩
        rw [List.length_append, List.length_append, hsize] at htotal
        omega
    · rw [if_neg hroom]
      apply ih (fun x hx => hshort x (List.mem_cons_of_mem value hx))
      rw [List.length_append, hsize]
      omega

theorem exitCode_ne_zero {status : ExitStatus} (h : status ≠ .exited 0) : exitCode status ≠ 0 := by
  cases status with
  | exited code => exact fun hzero => h (congrArg ExitStatus.exited hzero)
  | signaled signal =>
    have hall : ∀ signal : Fin 128, UInt8.ofNat (128 + signal.val) ≠ 0 := by decide
    exact hall signal

section

variable {programs : Programs} {identity : Identity}

theorem runInput_ok {input output : List UInt8} : runInput programs identity input = .ok output ↔
    (programs.age identity input).success ∧ output.length ≤ maxCiphertextSize ∧
      (programs.age identity input).stdout = output := by
  unfold runInput
  by_cases hsuccess : (programs.age identity input).success
  · rw [if_neg (not_not_intro hsuccess)]
    by_cases hlarge : maxCiphertextSize < (programs.age identity input).stdout.length
    · rw [if_pos hlarge]
      constructor
      · intro h
        cases h
      · rintro ⟨_, hsmall, rfl⟩
        omega
    · rw [if_neg hlarge]
      constructor
      · intro h
        cases h
        exact ⟨hsuccess, Nat.le_of_not_lt hlarge, rfl⟩
      · rintro ⟨_, _, rfl⟩
        rfl
  · rw [if_pos hsuccess]
    constructor
    · intro h
      cases h
    · intro h
      exact absurd h.1 hsuccess

theorem single_ok {input output : List UInt8} :
    (single programs identity input).success ∧ (single programs identity input).stdout = output ↔
      programs.authorize = .ok () ∧ (programs.age identity input).success ∧
        (programs.age identity input).stdout = output := by
  unfold single
  cases programs.authorize with
  | error message => simp [notAuthorized, Exit.failed, Exit.success]
  | ok answer =>
    simp only [Exit.success, ExitStatus.exited.injEq, true_and]
    have hsame : exitCode (programs.age identity input).status = 0 ↔
        (programs.age identity input).status = .exited 0 := by
      constructor
      · intro h
        exact not_not.mp fun hfailed => exitCode_ne_zero hfailed h
      · intro h
        rw [h]
        rfl
    rw [hsame]

theorem runInputs_short {inputs outputs : List (List UInt8)}
    (h : inputs.mapM (runInput programs identity) = .ok outputs) :
    ∀ output ∈ outputs, output.length < 256 ^ 4 := by
  intro output houtput
  obtain ⟨input, _, hrun⟩ := forall₂_mem_right (mapM_ok_iff.mp h) output houtput
  have hsmall := (runInput_ok.mp hrun).2.1
  rw [maxCiphertextSize_eq] at hsmall
  omega

theorem runWaves_ok {outputs result : List UInt8} {waves : List (List (List UInt8))}
    (hfits : outputs.length ≤ maxBatchBytes) :
    runWaves programs identity outputs waves = .ok result ↔
      ∃ values, waves.flatten.mapM (runInput programs identity) = .ok values ∧
        (outputs ++ prefixedAll 4 values).length ≤ maxBatchBytes ∧
        result = outputs ++ prefixedAll 4 values := by
  induction waves generalizing outputs with
  | nil =>
    rw [runWaves]
    constructor
    · intro h
      cases h
      exact ⟨[], rfl, by simpa [prefixedAll] using hfits, by simp [prefixedAll]⟩
    · rintro ⟨values, hvalues, _, rfl⟩
      cases hvalues
      simp [prefixedAll]
  | cons wave waves ih =>
    rw [runWaves, orderedParallel_eq, List.flatten_cons, List.mapM_append]
    cases hwave : wave.mapM (runInput programs identity) with
    | error failure =>
      constructor
      · intro h
        cases h
      · rintro ⟨_, h, _⟩
        cases h
    | ok values =>
      have hshort := runInputs_short hwave
      show (outputsAppend outputs values >>= _) = _ ↔ _
      cases happend : outputsAppend outputs values with
      | error failure =>
        constructor
        · intro h
          cases h
        · rintro ⟨values', h, htotal, rfl⟩
          cases hrest : waves.flatten.mapM (runInput programs identity) with
          | error failure => rw [hrest] at h; cases h
          | ok rest =>
            rw [hrest] at h
            cases h
            rw [prefixedAll_append, ← List.append_assoc, List.length_append] at htotal
            have hroom : (outputs ++ prefixedAll 4 values).length ≤ maxBatchBytes := by omega
            rw [(outputsAppend_ok hshort hfits).mpr ⟨hroom, rfl⟩] at happend
            cases happend
      | ok outputs' =>
        obtain ⟨hroom, rfl⟩ := (outputsAppend_ok hshort hfits).mp happend
        show runWaves programs identity (outputs ++ prefixedAll 4 values) waves = _ ↔ _
        rw [ih hroom]
        constructor
        · rintro ⟨rest, hrest, htotal, rfl⟩
          refine ⟨values ++ rest, by rw [hrest]; rfl, ?_, ?_⟩
          · rw [prefixedAll_append, ← List.append_assoc]
            exact htotal
          · rw [prefixedAll_append, List.append_assoc]
        · rintro ⟨values', h, htotal, rfl⟩
          cases hrest : waves.flatten.mapM (runInput programs identity) with
          | error failure => rw [hrest] at h; cases h
          | ok rest =>
            rw [hrest] at h
            cases h
            rw [prefixedAll_append, ← List.append_assoc] at htotal ⊢
            exact ⟨rest, rfl, htotal, rfl⟩

theorem runInput_error {input : List UInt8} {code : UInt8} (h : runInput programs identity input = .error code) :
    code ≠ 0 := by
  simp only [runInput] at h
  split at h
  next hfailed =>
    cases h
    exact exitCode_ne_zero hfailed
  next =>
    split at h
    next =>
      cases h
      decide
    next => cases h

theorem outputsAppend_error {outputs : List UInt8} {values : List (List UInt8)} {code : UInt8}
    (h : outputsAppend outputs values = .error code) : code = failureCode := by
  induction values generalizing outputs with
  | nil => cases h
  | cons value values ih =>
    rw [outputsAppend] at h
    split at h
    next =>
      cases h
      rfl
    next =>
      split at h
      next =>
        cases h
        rfl
      next => exact ih h

theorem runWaves_error {outputs : List UInt8} {waves : List (List (List UInt8))} {code : UInt8}
    (h : runWaves programs identity outputs waves = .error code) : code ≠ 0 := by
  induction waves generalizing outputs with
  | nil => cases h
  | cons wave waves ih =>
    rw [runWaves, orderedParallel_eq] at h
    cases hwave : wave.mapM (runInput programs identity) with
    | error code' =>
      rw [hwave] at h
      cases h
      obtain ⟨_, input, _, _, _, _, hinput⟩ := mapM_error_iff.mp hwave
      exact runInput_error hinput
    | ok values =>
      rw [hwave] at h
      change (outputsAppend outputs values >>= _) = _ at h
      cases happend : outputsAppend outputs values with
      | error code' =>
        rw [happend] at h
        cases h
        rw [outputsAppend_error happend]
        decide
      | ok outputs' =>
        rw [happend] at h
        exact ih h

/-- A batch succeeds when age does on every input and the outputs fit together. -/
theorem runBatch_ok {inputs : List (List UInt8)} {outputs : List UInt8} :
    (runBatch programs identity inputs).success ∧ (runBatch programs identity inputs).stdout = outputs ↔
      ∃ values, inputs.mapM (runInput programs identity) = .ok values ∧
        (prefixedAll 4 values).length ≤ maxBatchBytes ∧ outputs = prefixedAll 4 values := by
  have hwaves := @runWaves_ok programs identity [] outputs (chunks programs.workers inputs) (Nat.zero_le _)
  rw [chunks_flatten] at hwaves
  simp only [List.nil_append] at hwaves
  rw [runBatch, ← hwaves]
  cases hrun : runWaves programs identity [] (chunks programs.workers inputs) with
  | error code => simp [Exit.success, runWaves_error hrun]
  | ok outputs' => simp [Exit.success]

end

end Launcher

namespace AgeCommandProvider

theorem runWith_ok {exit : Exit} {limit : Nat} {output : List UInt8} :
    runWith exit limit = .ok output ↔ exit.success ∧ exit.stdout = output ∧ output.length ≤ limit := by
  constructor
  · intro h
    obtain ⟨_, hlimit, h⟩ := Checked.bind_ok h
    obtain ⟨_, hsuccess, h⟩ := Checked.bind_ok h
    cases h
    exact ⟨not_not.mp (Checked.refuseIf_ok hsuccess), rfl, Nat.le_of_not_lt (Checked.refuseIf_ok hlimit)⟩
  · rintro ⟨hsuccess, rfl, hsmall⟩
    rw [runWith, Checked.refuseIf_of_not _ (Nat.not_lt_of_le hsmall), Checked.ok_bind,
      Checked.refuseIf_of_not _ (not_not_intro hsuccess), Checked.ok_bind]
    rfl

theorem readOutputs_prefixedAll {fuel : Nat} {values : List (List UInt8)}
    (hfuel : (prefixedAll 4 values).length ≤ fuel) (hshort : ∀ value ∈ values, value.length < 256 ^ 4) :
    readOutputs fuel (prefixedAll 4 values) = .ok values := by
  induction values generalizing fuel with
  | nil =>
    cases fuel with
    | zero => rfl
    | succ fuel => rfl
  | cons value values ih =>
    rw [prefixedAll_cons, List.length_append, prefixed_length] at hfuel
    obtain ⟨fuel, rfl⟩ : ∃ n, fuel = n + 1 := ⟨fuel - 1, by omega⟩
    have hne : prefixed 4 value ++ prefixedAll 4 values ≠ [] := by
      intro h
      exact prefixed_ne_nil (by omega) value (List.append_eq_nil_iff.mp h).1
    obtain ⟨hlength, hread, hvalue, htail⟩ :=
      prefixed_front (hshort value List.mem_cons_self) (prefixedAll 4 values)
    have hleft : (prefixedAll 4 values).length ≤ fuel := by omega
    have hrest := ih hleft fun x hx => hshort x (List.mem_cons_of_mem value hx)
    rw [prefixedAll_cons, readOutputs, if_neg hne]
    simp only [hlength, hread, hvalue, htail, hrest, Checked.orRefuse, Checked.orPanic, Checked.ok_bind]
    rfl

variable {programs : Programs} {provider : AgeCommandProvider}

theorem launcherBatch_ok {ciphertexts plaintexts : List (List UInt8)} (hne : ciphertexts ≠ [])
    (hshort : ∀ ciphertext ∈ ciphertexts, ciphertext.length ≤ maxCiphertextSize) :
    launcherBatch programs provider ciphertexts = .ok plaintexts ↔
      ∃ identity, Launcher.identityOf programs provider.decryption ciphertexts = .ok identity ∧
        Launcher.Fits ciphertexts ∧
        ciphertexts.mapM (Launcher.runInput programs identity) = .ok plaintexts ∧
        (prefixedAll 4 plaintexts).length ≤ Launcher.maxBatchBytes ∧
        (prefixedAll 4 plaintexts).length ≤ ciphertexts.length * (maxPlaintextSize + 4) := by
  constructor
  · intro h
    obtain ⟨output, hrun, h⟩ := Checked.bind_ok h
    obtain ⟨values, hvalues, h⟩ := Checked.bind_ok h
    obtain ⟨_, _, h⟩ := Checked.bind_ok h
    cases h
    obtain ⟨hsuccess, hstdout, hlimit⟩ := runWith_ok.mp hrun
    unfold Launcher.batch at hsuccess hstdout
    cases hbatch : Launcher.readBatch (prefixedAll 4 ciphertexts) with
    | error message => simp only [hbatch] at hsuccess; cases hsuccess
    | ok inputs =>
      obtain ⟨hfits, rfl⟩ := (Launcher.readBatch_prefixedAll hne hshort).mp hbatch
      simp only [hbatch] at hsuccess hstdout
      cases hidentity : Launcher.identityOf programs provider.decryption inputs with
      | error message => simp only [hidentity] at hsuccess; cases hsuccess
      | ok identity =>
        simp only [hidentity] at hsuccess hstdout
        obtain ⟨values', hmap, htotal, rfl⟩ := Launcher.runBatch_ok.mp ⟨hsuccess, hstdout⟩
        rw [readOutputs_prefixedAll (Nat.le_refl _) (Launcher.runInputs_short hmap)] at hvalues
        cases hvalues
        exact ⟨identity, rfl, hfits, hmap, htotal, hlimit⟩
  · rintro ⟨identity, hidentity, hfits, hmap, htotal, hlimit⟩
    have hbatch := (Launcher.readBatch_prefixedAll hne hshort).mpr ⟨hfits, rfl⟩
    have hrun := Launcher.runBatch_ok.mpr ⟨plaintexts, hmap, htotal, rfl⟩
    have hcount := (mapM_ok_iff.mp hmap).length_eq
    have hexit : Launcher.batch programs provider.decryption (prefixedAll 4 ciphertexts) =
        Launcher.runBatch programs identity ciphertexts := by
      simp only [Launcher.batch, hbatch, hidentity]
    rw [launcherBatch, hexit, runWith_ok.mpr ⟨hrun.1, hrun.2, hlimit⟩, Checked.ok_bind,
      readOutputs_prefixedAll (Nat.le_refl _) (Launcher.runInputs_short hmap), Checked.ok_bind,
      Checked.refuseIf_of_not _ (by omega)]
    rfl

theorem launcherBatch_one {ciphertext : List UInt8} {plaintexts : List (List UInt8)}
    (hsmall : ciphertext.length ≤ maxCiphertextSize) :
    launcherBatch programs provider [ciphertext] = .ok plaintexts ↔
      ∃ identity plaintext, Launcher.identityOf programs provider.decryption [ciphertext] = .ok identity ∧
        Launcher.runInput programs identity ciphertext = .ok plaintext ∧
        plaintext.length ≤ maxPlaintextSize ∧ plaintexts = [plaintext] := by
  have hshort : ∀ c ∈ [ciphertext], c.length ≤ maxCiphertextSize := by
    intro c hc
    rw [List.mem_singleton.mp hc]
    exact hsmall
  have hsize (plaintext : List UInt8) : (prefixedAll 4 [plaintext]).length = plaintext.length + 4 := by
    rw [prefixedAll_cons, List.length_append, prefixed_length]
    rfl
  rw [launcherBatch_ok (List.cons_ne_nil _ _) hshort]
  constructor
  · rintro ⟨identity, hidentity, _, hmap, _, hlimit⟩
    have hall := mapM_ok_iff.mp hmap
    cases hall with
    | @cons _ plaintext _ rest hrun hrest =>
      cases hrest
      rw [hsize, List.length_singleton] at hlimit
      exact ⟨identity, plaintext, hidentity, hrun, by omega, rfl⟩
  · rintro ⟨identity, plaintext, hidentity, hrun, hlimit, rfl⟩
    have hfits : Launcher.Fits [ciphertext] := by
      simp only [Launcher.Fits, List.length_singleton, List.map_cons, List.map_nil, List.sum_cons, List.sum_nil,
        Launcher.maxBatch, Launcher.maxBatchBytes]
      rw [maxCiphertextSize_eq] at hsmall
      omega
    have htotal : plaintext.length + 4 ≤ Launcher.maxBatchBytes := by
      rw [maxPlaintextSize_eq] at hlimit
      rw [Launcher.maxBatchBytes]
      omega
    refine ⟨identity, hidentity, hfits, ?_, ?_, ?_⟩
    · exact mapM_ok_iff.mpr (List.Forall₂.cons hrun List.Forall₂.nil)
    · rw [hsize]
      exact htotal
    · rw [hsize, List.length_singleton]
      omega

/-- One value comes out of the launcher as a batch of one does. -/
theorem decrypt_launched {ciphertext plaintext : List UInt8} (hlauncher : provider.launcher = true) :
    decrypt programs provider ciphertext = .ok plaintext ↔
      ciphertext.length ≤ maxCiphertextSize ∧ plaintext.length ≤ maxPlaintextSize ∧
      ∃ identity, Launcher.identityOf programs provider.decryption [ciphertext] = .ok identity ∧
        Launcher.runInput programs identity ciphertext = .ok plaintext := by
  by_cases hlarge : maxCiphertextSize < ciphertext.length
  · rw [decrypt, Checked.refuseIf, if_pos hlarge]
    constructor
    · intro h
      cases h
    · intro h
      omega
  have hsmall := Nat.le_of_not_lt hlarge
  rw [decrypt, Checked.refuseIf_of_not _ hlarge, Checked.ok_bind]
  cases hmode : provider.decryption with
  | onePassword =>
    rw [if_pos ⟨hlauncher, rfl⟩]
    have hone := @launcherBatch_one programs provider ciphertext
    rw [hmode] at hone
    constructor
    · intro h
      obtain ⟨plaintexts, hbatch, h⟩ := Checked.bind_ok h
      obtain ⟨identity, value, hidentity, hrun, hlimit, rfl⟩ := (hone hsmall).mp hbatch
      cases h
      exact ⟨hsmall, hlimit, identity, hidentity, hrun⟩
    · rintro ⟨_, hlimit, identity, hidentity, hrun⟩
      rw [(hone hsmall).mpr ⟨identity, plaintext, hidentity, hrun, hlimit, rfl⟩]
      rfl
  | identityFile path =>
    have hidentity : provider.identity = .file path := by rw [identity, hmode]
    rw [if_neg (by simp), hlauncher, if_pos rfl, hidentity, runWith_ok, ← and_assoc, Launcher.single_ok]
    simp only [Launcher.identityOf, Launcher.authorized]
    constructor
    · rintro ⟨⟨hauthorize, hsuccess, hstdout⟩, hlimit⟩
      have hcipher := Nat.le_trans hlimit (Nat.le_add_right maxPlaintextSize (1024 * 1024))
      refine ⟨hsmall, hlimit, .file path, ?_, Launcher.runInput_ok.mpr ⟨hsuccess, hcipher, hstdout⟩⟩
      rw [hauthorize]
      rfl
    · rintro ⟨_, hlimit, identity, h, hrun⟩
      cases hauthorize : programs.authorize with
      | error message =>
        rw [hauthorize] at h
        cases h
      | ok answer =>
        rw [hauthorize] at h
        cases h
        obtain ⟨hsuccess, _, hstdout⟩ := Launcher.runInput_ok.mp hrun
        exact ⟨⟨rfl, hsuccess, hstdout⟩, hlimit⟩

theorem decryptBatch_unlaunched {ciphertexts plaintexts : List (List UInt8)}
    (hlauncher : provider.launcher = false) :
    decryptBatch programs provider ciphertexts = .ok plaintexts ↔
      List.Forall₂ (fun c p => decrypt programs provider c = .ok p) ciphertexts plaintexts := by
  by_cases hlarge : ∃ ciphertext ∈ ciphertexts, maxCiphertextSize < ciphertext.length
  · rw [decryptBatch, Checked.refuseIf, if_pos hlarge]
    constructor
    · intro h
      cases h
    · intro h
      obtain ⟨ciphertext, hmem, hlong⟩ := hlarge
      obtain ⟨plaintext, _, hrun⟩ := forall₂_mem_left h ciphertext hmem
      rw [decrypt, Checked.refuseIf, if_pos hlong] at hrun
      cases hrun
  · rw [decryptBatch, Checked.refuseIf_of_not _ hlarge, Checked.ok_bind, if_pos hlauncher, ← mapM_ok_iff,
      orderedParallel_eq, ite_self]
    by_cases hempty : ciphertexts = []
    · rw [if_pos hempty, hempty]
      rfl
    · rw [if_neg hempty]

end AgeCommandProvider

end NixSecrets.Crypto
