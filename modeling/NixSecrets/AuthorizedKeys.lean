import Mathlib.Data.List.Infix
import NixSecrets.Base64
import NixSecrets.FaultProgram
import NixSecrets.HostKeyLines
import NixSecrets.InnerFormat
import NixSecrets.KnownHosts

namespace NixSecrets.StorageBox

open HostKey (lines lines_line not_mem_lines lines_closed lines_open lines_nil)
open Inventory (fields)

inductive Error
  | invalidTask (message : String)
  | invalidAuthorizedKeys (message : String)
  | invalidPrivateKey
  | ssh (message : String)
  | io (message : String)
  | keyGeneration
  deriving DecidableEq, Repr

structure Output where
  path : List Char
  owner : List Char
  group : List Char
  mode : Nat
  deriving DecidableEq, Repr

structure StorageBoxTask where
  schemaVersion : Nat
  taskId : List Char
  targetHostname : List Char
  storageBoxHost : List Char
  storageBoxUser : List Char
  port : Nat
  pinnedHostKeys : List (List Char)
  output : Output
  deriving DecidableEq, Repr

def bad (message : String) : Except Error Unit := .error (.invalidTask message)

def badIf (c : Prop) [Decidable c] (message : String) : Except Error Unit := if c then bad message else .ok ()

def token (value : List Char) (field : String) : Except Error Unit :=
  badIf (value = [] ∨ 128 < utf8Length value ∨ ¬ value.all fun c => c.isAlphanum || "._-".toList.contains c)
    (field ++ " contains invalid characters")

def taskIdentifier (value : List Char) : Except Error Unit :=
  badIf (4096 < utf8Length value ∨ (value.splitOn '.').length < 4 ∨
      (value.splitOn '.').any fun part =>
        part.isEmpty || !part.all fun c => c.isAlphanum || c == '-' || c == '_')
    "taskId is not a canonical secret identifier"

def dnsName (value : List Char) (field : String) : Except Error Unit := do
  token value field
  badIf (value.head? = some '.' ∨ value.getLast? = some '.' ∨ ['.', '.'] <:+: value)
    (field ++ " is not a DNS name")

/-- A private key as the OpenSSH format holds it. -/
structure PrivateKey where
  algorithm : String
  data : List UInt8
  comment : List Char
  deriving DecidableEq, Repr

def PrivateKey.blob (key : PrivateKey) : List UInt8 := prefixed 4 (utf8Bytes key.algorithm.toList) ++ key.data

/-- What other packages do: the fingerprint of a pinned key, and private keys as text. -/
structure Keys where
  pinFingerprint : List Char → Option String
  fromOpenssh : List Char → Option PrivateKey
  toOpenssh : PrivateKey → Option (List Char)

section

variable (libs : Keys)

def validatePin (pin : List Char) : Except Error String :=
  if (fields pin).length < 2 then
    .error (.invalidTask "a pinned host key must be a complete OpenSSH public key line")
  else
    match libs.pinFingerprint pin with
    | none => .error (.invalidTask "pinned host key is malformed")
    | some fingerprint => .ok fingerprint

def insertPin (pins : List String) (pin : List Char) : Except Error (List String) := do
  let fingerprint ← validatePin libs pin
  if fingerprint ∈ pins then .error (.invalidTask "pinnedHostKeys contains duplicate keys")
  else return fingerprint :: pins

def StorageBoxTask.validate (task : StorageBoxTask) : Except Error Unit := do
  badIf (task.schemaVersion ≠ 1) "unsupported schemaVersion"
  taskIdentifier task.taskId
  dnsName task.targetHostname "targetHostname"
  dnsName task.storageBoxHost "storageBoxHost"
  token task.storageBoxUser "storageBoxUser"
  badIf (task.port ≠ 23) "Storage Box SSH port must be 23"
  badIf (task.pinnedHostKeys = []) "pinnedHostKeys is empty"
  let _ ← task.pinnedHostKeys.foldlM (insertPin libs) []
  badIf (task.output.path.head? ≠ some '/' ∨ '\x00' ∈ task.output.path) "output path must be absolute"
  token task.output.owner "output owner"
  token task.output.group "output group"
  badIf (task.output.mode ≠ 0o400 ∧ task.output.mode ≠ 0o440) "output mode must be 0400 or 0440"

end

def markLabel : List Char := "nix-secrets:".toList

def StorageBoxTask.markerPrefix (task : StorageBoxTask) : List Char :=
  markLabel ++ task.targetHostname ++ ':' :: task.taskId ++ [':']

/-- The public half as one line: the algorithm, the key and, unless it is empty, the comment. -/
def PrivateKey.publicText (key : PrivateKey) : List Char :=
  key.algorithm.toList ++ ' ' :: base64Encode key.blob ++ (if key.comment = [] then [] else ' ' :: key.comment)

structure GeneratedKey where
  privatePem : List Char
  publicKey : List Char
  deriving DecidableEq, Repr

section

variable (libs : Keys)

def GeneratedKey.fromPrivateKey (key : PrivateKey) : Except Error GeneratedKey :=
  match libs.toOpenssh key with
  | none => .error .keyGeneration
  | some privatePem => .ok ⟨privatePem, key.publicText⟩

def GeneratedKey.fromPrivatePem (pem : List Char) : Except Error GeneratedKey :=
  match libs.fromOpenssh pem with
  | none => .error .invalidPrivateKey
  | some key =>
    if key.algorithm ≠ "ssh-ed25519" then .error .invalidPrivateKey
    else (GeneratedKey.fromPrivateKey libs key).mapError fun _ => .invalidPrivateKey

end

inductive Merge
  | unchanged (contents : List UInt8)
  | replaced (contents : List UInt8)
  deriving DecidableEq, Repr

def Merge.contents : Merge → List UInt8
  | .unchanged contents => contents
  | .replaced contents => contents

def invalid {α : Type} (message : String) : Except Error α := .error (.invalidAuthorizedKeys message)

def dateChar (c : Char) (i : Nat) : Bool := if i = 4 ∨ i = 7 then c == '-' else c.isDigit

def validateDate (value : List Char) : Except Error Unit :=
  if utf8Length value ≠ 10 ∨ ¬ value.zipIdx.all fun x => dateChar x.1 x.2 then
    invalid "marker date is not YYYY-MM-DD"
  else .ok ()

def validateMarkedLine (line mark : List Char) : Except Error Unit :=
  match fields line with
  | [first, _, marker] =>
    if "ssh-".toList <+: first ∧ mark <+: marker then validateDate (marker.drop mark.length)
    else invalid "malformed task marker entry"
  | _ => invalid "malformed task marker entry"

/-- The first two fields of a line, as a public key is written. -/
def keyText (line : List Char) : List Char := [' '].intercalate ((fields line).take 2)

structure Scan where
  lines : List (List Char) := []
  markerCount : Nat := 0
  alreadyCurrent : Bool := false
  deriving DecidableEq, Repr

section

variable (mark publicKey : List Char)

def scanLine (scan : Scan) (line : List Char) : Except Error Scan := do
  if mark <:+: line then
    validateMarkedLine line mark
    return { scan with markerCount := scan.markerCount + 1, alreadyCurrent := keyText line = publicKey }
  else if markLabel <:+: line ∧ (fields line).any (mark.isPrefixOf ·) then
    invalid "malformed task marker"
  else return { scan with lines := scan.lines ++ [line] }

def desired (date : List Char) : List Char := publicKey ++ ' ' :: mark ++ date

def fileText (current : List UInt8) : Except Error (List Char) :=
  match utf8Text current with
  | none => invalid "file is not UTF-8"
  | some text => .ok text

def settle (current : List UInt8) (date : List Char) (scan : Scan) : Except Error Merge :=
  if 1 < scan.markerCount then invalid "duplicate task markers"
  else if scan.alreadyCurrent then .ok (.unchanged current)
  else
    let output := ['\n'].intercalate (scan.lines ++ [desired mark publicKey date])
    .ok (.replaced (utf8Bytes output ++ [10]))

def mergeAuthorizedKeys (current : List UInt8) (date : List Char) : Except Error Merge := do
  if 1024 * 1024 < current.length ∨ 0 ∈ current ∨ 13 ∈ current then
    invalid "file is too large or contains forbidden bytes"
  validateDate date
  let text ← fileText current
  let scan ← (lines text).foldlM (scanLine mark publicKey) {}
  settle mark publicKey current date scan

end

theorem badIf_ok {c : Prop} [Decidable c] {message : String} (h : badIf c message = .ok ()) : ¬ c := by
  intro hc
  rw [badIf, if_pos hc] at h
  cases h

theorem splitOnP_parts (p : Char → Bool) (text : List Char) :
    ∃ first rest, text.splitOnP p = first :: rest ∧ first <+: text ∧ (∀ c ∈ first, p c = false) ∧
      ∀ part ∈ rest, part <:+: text ∧ ∀ c ∈ part, p c = false := by
  induction text with
  | nil => exact ⟨[], [], rfl, List.prefix_rfl, by simp, by simp⟩
  | cons c text ih =>
    obtain ⟨first, rest, hparts, hfirst, hplain, hrest⟩ := ih
    have hlater : ∀ part ∈ rest, part <:+: c :: text ∧ ∀ c ∈ part, p c = false :=
      fun part hpart => ⟨(hrest part hpart).1.trans (List.suffix_cons c text).isInfix, (hrest part hpart).2⟩
    rw [List.splitOnP_cons_eq_if_modifyHead, hparts]
    by_cases hc : p c = true
    · rw [if_pos hc]
      refine ⟨[], first :: rest, rfl, List.nil_prefix, by simp, ?_⟩
      intro part hpart
      rcases List.mem_cons.mp hpart with rfl | hpart
      · exact ⟨hfirst.isInfix.trans (List.suffix_cons c text).isInfix, hplain⟩
      · exact hlater part hpart
    · rw [if_neg hc, List.modifyHead_cons]
      refine ⟨c :: first, rest, rfl, (List.prefix_cons_inj c).mpr hfirst, ?_, hlater⟩
      intro d hd
      rcases List.mem_cons.mp hd with rfl | hd
      · exact Bool.not_eq_true _ ▸ hc
      · exact hplain d hd

/-- A field is a piece of its line without blanks. -/
theorem mem_fields {line field : List Char} (h : field ∈ fields line) :
    field <:+: line ∧ (∀ c ∈ field, isAsciiWhitespace c = false) ∧ field ≠ [] := by
  obtain ⟨hpart, hne⟩ := List.mem_filter.mp h
  obtain ⟨first, rest, hparts, hfirst, hplain, hrest⟩ := splitOnP_parts isAsciiWhitespace line
  rw [hparts] at hpart
  rcases List.mem_cons.mp hpart with rfl | hpart
  · exact ⟨hfirst.isInfix, hplain, of_decide_eq_true hne⟩
  · exact ⟨(hrest field hpart).1, (hrest field hpart).2, of_decide_eq_true hne⟩

theorem validateMarkedLine_ok {line mark : List Char} :
    validateMarkedLine line mark = .ok () ↔
      ∃ first second date, fields line = [first, second, mark ++ date] ∧ "ssh-".toList <+: first ∧
        validateDate date = .ok () := by
  unfold validateMarkedLine
  constructor
  · intro h
    split at h
    next first second marker hfields =>
      split at h
      next hstarts =>
        obtain ⟨date, rfl⟩ := hstarts.2
        rw [List.drop_left] at h
        exact ⟨first, second, date, hfields, hstarts.1, h⟩
      next => cases h
    next => cases h
  · intro h
    obtain ⟨first, second, date, hfields, hssh, hdate⟩ := h
    rw [hfields]
    dsimp only
    rw [if_pos ⟨hssh, List.prefix_append mark date⟩, List.drop_left]
    exact hdate

theorem infix_of_marked {line mark : List Char} (h : validateMarkedLine line mark = .ok ()) : mark <:+: line := by
  obtain ⟨first, second, date, hfields, _⟩ := validateMarkedLine_ok.mp h
  have hfield : mark ++ date ∈ fields line := by simp [hfields]
  exact (List.prefix_append mark date).isInfix.trans (mem_fields hfield).1

section

variable {mark publicKey : List Char}

/-- The lines that carry a task's mark. -/
def marked (mark : List Char) (ls : List (List Char)) : List (List Char) := ls.filter (mark <:+: ·)

/-- The lines that do not carry it. -/
def kept (mark : List Char) (ls : List (List Char)) : List (List Char) := ls.filter (¬ mark <:+: ·)

def Sound (mark : List Char) (ls : List (List Char)) : Prop :=
  ∀ line ∈ ls, mark <:+: line → validateMarkedLine line mark = .ok ()

/-- The check for a malformed mark finds nothing that the line itself would not show. -/
theorem scanLine_kept {line : List Char} (h : ¬ mark <:+: line) (scan : Scan) :
    scanLine mark publicKey scan line = .ok { scan with lines := scan.lines ++ [line] } := by
  unfold scanLine
  rw [if_neg h, if_neg]
  · rfl
  · intro hmalformed
    obtain ⟨field, hfield, hstarts⟩ := List.any_eq_true.mp hmalformed.2
    exact h ((List.isPrefixOf_iff_prefix.mp hstarts).isInfix.trans (mem_fields hfield).1)

theorem scanLine_marked {line : List Char} (h : validateMarkedLine line mark = .ok ()) (scan : Scan) :
    scanLine mark publicKey scan line =
      .ok { scan with markerCount := scan.markerCount + 1, alreadyCurrent := keyText line = publicKey } := by
  unfold scanLine
  rw [if_pos (infix_of_marked h), h]
  rfl

theorem scanLine_refused {line : List Char} (h : mark <:+: line) (hline : validateMarkedLine line mark ≠ .ok ())
    (scan : Scan) : ∃ error, scanLine mark publicKey scan line = .error error := by
  unfold scanLine
  rw [if_pos h]
  cases hresult : validateMarkedLine line mark with
  | ok => exact absurd hresult hline
  | error error => exact ⟨error, rfl⟩

/-- What the loop has gathered after lines whose marks are well formed. -/
theorem scan_sound {ls : List (List Char)} (h : Sound mark ls) (scan : Scan) :
    ls.foldlM (scanLine mark publicKey) scan = .ok
      ⟨scan.lines ++ kept mark ls, scan.markerCount + (marked mark ls).length,
        ((marked mark ls).getLast?.map fun line => decide (keyText line = publicKey)).getD scan.alreadyCurrent⟩ := by
  induction ls generalizing scan with
  | nil => simp [kept, marked]; rfl
  | cons line ls ih =>
    have hrest : Sound mark ls := fun other hother => h other (List.mem_cons_of_mem line hother)
    rw [List.foldlM_cons]
    by_cases hmark : mark <:+: line
    · rw [scanLine_marked (h line List.mem_cons_self hmark)]
      refine (ih hrest _).trans ?_
      have hkept : kept mark (line :: ls) = kept mark ls := List.filter_cons_of_neg (by simp [hmark])
      have hmarked : marked mark (line :: ls) = line :: marked mark ls :=
        List.filter_cons_of_pos (by simp [hmark])
      rw [hkept, hmarked, List.length_cons, List.getLast?_cons]
      have hcount : scan.markerCount + 1 + (marked mark ls).length =
          scan.markerCount + ((marked mark ls).length + 1) := by omega
      cases (marked mark ls).getLast? with
      | none => simp [hcount]
      | some last => simp [hcount]
    · rw [scanLine_kept hmark]
      refine (ih hrest _).trans ?_
      have hkept : kept mark (line :: ls) = line :: kept mark ls := List.filter_cons_of_pos (by simp [hmark])
      have hmarked : marked mark (line :: ls) = marked mark ls := List.filter_cons_of_neg (by simp [hmark])
      simp [hkept, hmarked]

theorem scan_unsound {ls : List (List Char)} (h : ¬ Sound mark ls) (scan : Scan) :
    ∃ error, ls.foldlM (scanLine mark publicKey) scan = .error error := by
  induction ls generalizing scan with
  | nil => exact absurd (fun _ hline => absurd hline List.not_mem_nil) h
  | cons line ls ih =>
    rw [List.foldlM_cons]
    by_cases hmark : mark <:+: line
    · by_cases hline : validateMarkedLine line mark = .ok ()
      · rw [scanLine_marked hline]
        apply ih
        intro hrest
        apply h
        intro other hother hinfix
        rcases List.mem_cons.mp hother with rfl | hother
        · exact hline
        · exact hrest other hother hinfix
      · have hrefused : ∃ error, scanLine mark publicKey scan line = .error error :=
          scanLine_refused hmark hline scan
        obtain ⟨error, herror⟩ := hrefused
        exact ⟨error, by rw [herror]; rfl⟩
    · rw [scanLine_kept hmark]
      apply ih
      intro hrest
      apply h
      intro other hother hinfix
      rcases List.mem_cons.mp hother with rfl | hother
      · exact absurd hinfix hmark
      · exact hrest other hother hinfix

theorem fileText_ok {contents : List UInt8} {text : List Char} :
    fileText contents = .ok text ↔ utf8Text contents = some text := by
  unfold fileText
  cases utf8Text contents with
  | none => simp [invalid]
  | some other => simp

/-- A file that is read at all, with its text. -/
structure Readable (contents : List UInt8) (text : List Char) : Prop where
  text_eq : utf8Text contents = some text
  size : contents.length ≤ 1024 * 1024
  zero : 0 ∉ contents
  returns : 13 ∉ contents

/-- The marked lines are well formed, and there is at most one. -/
def Clean (mark : List Char) (ls : List (List Char)) : Prop := Sound mark ls ∧ (marked mark ls).length ≤ 1

/-- A marked line with the key. -/
def Current (mark publicKey : List Char) (ls : List (List Char)) : Prop :=
  ∃ line ∈ ls, mark <:+: line ∧ keyText line = publicKey

def unlines (ls : List (List Char)) : List Char := ls.flatMap (· ++ ['\n'])

theorem intercalate_unlines (ls : List (List Char)) (last : List Char) :
    ['\n'].intercalate (ls ++ [last]) ++ ['\n'] = unlines (ls ++ [last]) := by
  induction ls with
  | nil => simp [unlines]
  | cons line ls ih =>
    obtain ⟨next, rest, hrest⟩ : ∃ next rest, ls ++ [last] = next :: rest :=
      List.exists_cons_of_ne_nil (by simp)
    have hwhole : ['\n'].intercalate (line :: (ls ++ [last])) =
        line ++ '\n' :: ['\n'].intercalate (ls ++ [last]) := by
      rw [hrest, List.intercalate_cons_cons]
      simp
    rw [List.cons_append, hwhole, List.append_assoc, List.cons_append, ih]
    simp [unlines]

theorem utf8Bytes_append (xs ys : List Char) : utf8Bytes (xs ++ ys) = utf8Bytes xs ++ utf8Bytes ys := by
  simp [utf8Bytes_flatMap]

/-- The scan has the key on the last marked line. -/
theorem current_iff {ls : List (List Char)} (h : Clean mark ls) :
    ((marked mark ls).getLast?.map fun line => decide (keyText line = publicKey)).getD false = true ↔
      Current mark publicKey ls := by
  have hmem : ∀ line, line ∈ marked mark ls ↔ line ∈ ls ∧ mark <:+: line := by simp [marked]
  unfold Current
  cases hmarked : marked mark ls with
  | nil =>
    rw [hmarked] at hmem
    constructor
    · intro hfalse
      cases hfalse
    · rintro ⟨line, hline, hmark, _⟩
      exact absurd ((hmem line).mpr ⟨hline, hmark⟩) List.not_mem_nil
  | cons line rest =>
    have hrest : rest = [] := by
      have hcount := h.2
      rw [hmarked, List.length_cons] at hcount
      exact List.length_eq_zero_iff.mp (by omega)
    subst hrest
    rw [hmarked] at hmem
    constructor
    · intro hkey
      obtain ⟨hline, hmark⟩ := (hmem line).mp List.mem_cons_self
      exact ⟨line, hline, hmark, by simpa using hkey⟩
    · rintro ⟨other, hother, hmark, hkey⟩
      have hsame : other = line := by simpa using (hmem other).mpr ⟨hother, hmark⟩
      simp [← hsame, hkey]

theorem settle_eq {ls : List (List Char)} (h : Clean mark ls) (contents : List UInt8) (date : List Char) :
    settle mark publicKey contents date ⟨kept mark ls, (marked mark ls).length,
        ((marked mark ls).getLast?.map fun line => decide (keyText line = publicKey)).getD false⟩ =
      .ok (if ((marked mark ls).getLast?.map fun line => decide (keyText line = publicKey)).getD false then
        .unchanged contents
      else .replaced (utf8Bytes (unlines (kept mark ls ++ [desired mark publicKey date])))) := by
  have hbreak : utf8Bytes ['\n'] = [10] := by decide
  unfold settle
  rw [if_neg (Nat.not_lt.mpr h.2)]
  dsimp only
  rw [← hbreak, ← utf8Bytes_append, intercalate_unlines]
  split
  next => rfl
  next => rfl

/-- What the merge returns, and when. -/
theorem mergeAuthorizedKeys_ok {contents : List UInt8} {date : List Char} {merge : Merge} :
    mergeAuthorizedKeys mark publicKey contents date = .ok merge ↔
      ∃ text, Readable contents text ∧ validateDate date = .ok () ∧ Clean mark (lines text) ∧
        (Current mark publicKey (lines text) ∧ merge = .unchanged contents ∨
          ¬ Current mark publicKey (lines text) ∧
            merge = .replaced (utf8Bytes (unlines (kept mark (lines text) ++ [desired mark publicKey date])))) := by
  constructor
  · intro h
    unfold mergeAuthorizedKeys at h
    split at h
    next => cases h
    next hbytes =>
      simp only [not_or, Nat.not_lt] at hbytes
      obtain ⟨_, hdate, h⟩ := except_bind_ok.mp h
      obtain ⟨text, htext, h⟩ := except_bind_ok.mp h
      obtain ⟨scan, hscan, h⟩ := except_bind_ok.mp h
      have hread : Readable contents text :=
        ⟨fileText_ok.mp htext, hbytes.1, hbytes.2.1, hbytes.2.2⟩
      have hsound : Sound mark (lines text) := by
        by_contra hunsound
        obtain ⟨error, herror⟩ := scan_unsound hunsound ({} : Scan)
        rw [herror] at hscan
        cases hscan
      rw [scan_sound hsound] at hscan
      cases hscan
      simp only [List.nil_append, Nat.zero_add] at h
      have hclean : Clean mark (lines text) := by
        refine ⟨hsound, ?_⟩
        by_contra hmany
        rw [settle, if_pos (by simpa using hmany)] at h
        cases h
      rw [settle_eq hclean] at h
      refine ⟨text, hread, hdate, hclean, ?_⟩
      split at h
      next hcurrent =>
        cases h
        exact Or.inl ⟨(current_iff hclean).mp hcurrent, rfl⟩
      next hcurrent =>
        cases h
        exact Or.inr ⟨fun hnow => hcurrent ((current_iff hclean).mpr hnow), rfl⟩
  · rintro ⟨text, hread, hdate, hclean, hmerge⟩
    have hbytes : ¬ (1024 * 1024 < contents.length ∨ 0 ∈ contents ∨ 13 ∈ contents) := by
      simp [hread.size, hread.zero, hread.returns]
    unfold mergeAuthorizedKeys
    rw [if_neg hbytes]
    refine except_bind_ok.mpr ⟨(), hdate, ?_⟩
    refine except_bind_ok.mpr ⟨text, fileText_ok.mpr hread.text_eq, ?_⟩
    refine except_bind_ok.mpr ⟨_, scan_sound hclean.1 {}, ?_⟩
    simp only [List.nil_append, Nat.zero_add]
    rw [settle_eq hclean]
    rcases hmerge with ⟨hcurrent, rfl⟩ | ⟨hcurrent, rfl⟩
    · rw [if_pos ((current_iff hclean).mpr hcurrent)]
    · rw [if_neg fun hnow => hcurrent ((current_iff hclean).mp hnow)]

end

end NixSecrets.StorageBox
