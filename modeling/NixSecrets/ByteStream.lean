import Mathlib.Algebra.Order.Ring.Nat
import Mathlib.Data.List.Basic

namespace NixSecrets

/-- What one read of a stream gives: some bytes, none at its end, an interruption or a failure. -/
inductive Arrival
  | bytes (chunk : List UInt8)
  | interrupted
  | failed (error : String)
  deriving DecidableEq, Repr

/-- Why a buffer was not filled: the stream ended after some bytes of it, or failed. -/
inductive ReadStop
  | ended (received : Nat)
  | failed (error : String)
  deriving DecidableEq, Repr

/-- Fills a buffer that lacks so many bytes; what comes beyond it stays in the stream. -/
def readWhole : List Arrival → Nat → List UInt8 → Except ReadStop (List UInt8 × List Arrival)
  | stream, 0, received => .ok (received, stream)
  | [], _ + 1, received => .error (.ended received.length)
  | .interrupted :: rest, missing + 1, received => readWhole rest (missing + 1) received
  | .failed e :: _, _ + 1, _ => .error (.failed e)
  | .bytes [] :: _, _ + 1, received => .error (.ended received.length)
  | .bytes (byte :: chunk) :: rest, missing + 1, received =>
    if chunk.length ≤ missing then
      readWhole rest (missing - chunk.length) (received ++ byte :: chunk)
    else .ok (received ++ byte :: chunk.take missing, .bytes (chunk.drop missing) :: rest)

/-- The bytes a stream delivers before it ends or fails, whatever they are cut into. -/
def delivered : List Arrival → List UInt8
  | [] => []
  | .interrupted :: rest => delivered rest
  | .failed _ :: _ => []
  | .bytes [] :: _ => []
  | .bytes (byte :: chunk) :: rest => byte :: chunk ++ delivered rest

theorem delivered_bytes {chunk : List UInt8} (h : chunk ≠ []) (rest : List Arrival) :
    delivered (.bytes chunk :: rest) = chunk ++ delivered rest := by
  cases chunk with
  | nil => exact absurd rfl h
  | cons byte chunk => rfl

theorem delivered_single (bytes : List UInt8) : delivered [.bytes bytes] = bytes := by
  cases bytes with
  | nil => rfl
  | cons byte bytes => exact List.append_nil _

theorem readWhole_ok {stream rest : List Arrival} {missing : Nat} {received all : List UInt8}
    (h : readWhole stream missing received = .ok (all, rest)) :
    ∃ new, all = received ++ new ∧ new.length = missing ∧ delivered stream = new ++ delivered rest := by
  induction stream generalizing missing received with
  | nil =>
    cases missing with
    | zero =>
      cases h
      exact ⟨[], by simp, rfl, rfl⟩
    | succ missing => cases h
  | cons arrival stream ih =>
    cases missing with
    | zero =>
      rw [readWhole] at h
      cases h
      exact ⟨[], by simp, rfl, rfl⟩
    | succ missing =>
      cases arrival with
      | interrupted => exact ih h
      | failed e => cases h
      | bytes chunk =>
        cases chunk with
        | nil => cases h
        | cons byte chunk =>
          rw [readWhole] at h
          split at h
          next hfits =>
            obtain ⟨new, hall, hlength, hdelivered⟩ := ih h
            refine ⟨byte :: chunk ++ new, ?_, ?_, ?_⟩
            · rw [hall, List.append_assoc]
            · rw [List.length_append, List.length_cons, hlength]
              omega
            · rw [delivered, hdelivered, List.append_assoc]
          next hmore =>
            cases h
            have hleft : chunk.drop missing ≠ [] := by
              intro hnil
              rw [List.drop_eq_nil_iff] at hnil
              exact hmore hnil
            refine ⟨byte :: chunk.take missing, rfl, ?_, ?_⟩
            · rw [List.length_cons, List.length_take]
              omega
            · rw [delivered_bytes hleft, delivered, List.cons_append, List.cons_append, ← List.append_assoc,
                List.take_append_drop]

/-- A buffer is filled whenever the stream delivers enough. -/
theorem readWhole_of_le {stream : List Arrival} {missing : Nat} (received : List UInt8)
    (h : missing ≤ (delivered stream).length) :
    ∃ rest, readWhole stream missing received = .ok (received ++ (delivered stream).take missing, rest) := by
  induction stream generalizing missing received with
  | nil =>
    have hzero : missing = 0 := Nat.le_zero.mp h
    subst hzero
    exact ⟨[], by simp [readWhole, delivered]⟩
  | cons arrival stream ih =>
    cases missing with
    | zero => exact ⟨arrival :: stream, by simp [readWhole]⟩
    | succ missing =>
      cases arrival with
      | interrupted => exact ih received h
      | failed e => cases h
      | bytes chunk =>
        cases chunk with
        | nil => cases h
        | cons byte chunk =>
          rw [delivered, List.length_append, List.length_cons] at h
          by_cases hfits : chunk.length ≤ missing
          · have hleft : missing - chunk.length ≤ (delivered stream).length := by omega
            obtain ⟨rest, hrest⟩ := ih (received ++ byte :: chunk) hleft
            refine ⟨rest, ?_⟩
            rw [readWhole, if_pos hfits, hrest, delivered, List.cons_append, List.take_succ_cons,
              List.take_append, List.take_of_length_le hfits]
            simp
          · have htake : (chunk ++ delivered stream).take missing = chunk.take missing :=
              List.take_append_of_le_length (by omega)
            refine ⟨.bytes (chunk.drop missing) :: stream, ?_⟩
            rw [readWhole, if_neg hfits, delivered, List.cons_append, List.take_succ_cons, htake]

/-- What a stream begins with is read off it. -/
theorem readWhole_append {stream : List Arrival} {front back : List UInt8}
    (h : delivered stream = front ++ back) :
    ∃ rest, readWhole stream front.length [] = .ok (front, rest) ∧ delivered rest = back := by
  have hle : front.length ≤ (delivered stream).length := by
    rw [h, List.length_append]
    omega
  obtain ⟨rest, hread⟩ := readWhole_of_le [] hle
  rw [List.nil_append, h, List.take_left] at hread
  obtain ⟨new, hnew, _, hdelivered⟩ := readWhole_ok hread
  rw [List.nil_append] at hnew
  subst hnew
  rw [h] at hdelivered
  exact ⟨rest, hread, (List.append_cancel_left hdelivered).symm⟩

end NixSecrets
