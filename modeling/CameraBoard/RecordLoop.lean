import CameraBoard.RecordWav
import Mathlib.Logic.Function.Iterate

/-! The recording loop pass by pass: how often it goes round and how its counter
relates to what the file took. -/
namespace CameraBoard.RecordWav
open BufferedStream

inductive Loop where
  | going (r : Recording)
  | ended (ret : EspErr) (r : Recording)

def Loop.recording : Loop → Recording
  | .going r => r
  | .ended _ r => r

/-- The check of the loop and, when it holds, one pass of the body. -/
def pass (env : RecordEnv) : Loop → Loop
  | .ended ret r => .ended ret r
  | .going r =>
    if r.wavWritten < wavSize then
      match recordStep env r with
      | .error (ret, r) => .ended ret r
      | .ok r => .going r
    else .ended espOk r

/-- What the loop returns from here. -/
def Loop.result (env : RecordEnv) : Loop → EspErr × Recording
  | .ended ret r => (ret, r)
  | .going r => recordLoop env r

section Unfold

variable {env : RecordEnv} {r : Recording}

theorem recordLoop_done (full : ¬r.wavWritten < wavSize) : recordLoop env r = (espOk, r) := by
  rw [recordLoop, dif_neg full]

theorem recordLoop_error {stop : EspErr × Recording} (more : r.wavWritten < wavSize)
    (next : recordStep env r = .error stop) : recordLoop env r = stop := by
  rw [recordLoop, dif_pos more]
  split <;> simp_all

theorem recordLoop_ok {r' : Recording} (more : r.wavWritten < wavSize)
    (next : recordStep env r = .ok r') : recordLoop env r = recordLoop env r' := by
  rw [recordLoop, dif_pos more]
  split <;> simp_all

end Unfold

theorem result_pass (env : RecordEnv) (l : Loop) : (pass env l).result env = l.result env := by
  cases l with
  | ended ret r => rfl
  | going r =>
    change _ = recordLoop env r
    by_cases more : r.wavWritten < wavSize
    · cases next : recordStep env r with
      | error stop =>
        rw [recordLoop_error more next, pass, if_pos more, next]
        rfl
      | ok r' =>
        rw [recordLoop_ok more next, pass, if_pos more, next]
        rfl
    · rw [recordLoop_done more, pass, if_neg more]
      rfl

theorem advance_accepted {env : RecordEnv} {r : Recording} (usable : (env.read r.reads).Usable)
    (full : (env.push (r.reads + 1)).IsFull) :
    (advance env r).stream.accepted =
      r.stream.accepted + (env.read r.reads).block.length := by
  rw [advance, write_one_accepted, write_one_returned, if_pos ⟨usable.2, full⟩, Nat.one_mul]

/-- After `n` passes, for a stream that had accepted `base` bytes at the start. -/
structure Loop.Inv (base n : Nat) (l : Loop) : Prop where
  counted : l.recording.stream.accepted = base + l.recording.wavWritten
  bounded : l.recording.wavWritten ≤ wavSize + 8191
  rounds : l.recording.reads ≤ wavSize
  -- a pass that goes on has made one read and taken at least one byte
  going : ∀ r, l = .going r → r.reads = n ∧ n ≤ r.wavWritten
  whole : ∀ ret r, l = .ended ret r → ret = espOk → wavSize ≤ r.wavWritten

theorem Loop.Inv.advance {env : RecordEnv} {base n : Nat} {r : Recording}
    (h : (Loop.going r).Inv base n) (more : r.wavWritten < wavSize)
    (usable : (env.read r.reads).Usable) (full : (env.push (r.reads + 1)).IsFull) :
    (Loop.going (RecordWav.advance env r)).Inv base (n + 1) := by
  obtain ⟨passed, taken⟩ := h.going r rfl
  have counted : r.stream.accepted = base + r.wavWritten := h.counted
  have some := List.length_pos_iff.2 usable.2
  have block : (env.read r.reads).block.length ≤ 8192 := (env.read r.reads).bound
  have far : wavSize + 8192 < UInt32.size := by decide
  have sum : (RecordWav.advance env r).wavWritten =
      r.wavWritten + (env.read r.reads).block.length := Nat.mod_eq_of_lt (by omega)
  have accepted := advance_accepted usable full
  have reads : (RecordWav.advance env r).reads = r.reads + 1 := rfl
  constructor
  · simp only [Loop.recording]
    omega
  · simp only [Loop.recording]
    omega
  · simp only [Loop.recording]
    omega
  · rintro _ ⟨⟩
    omega
  · exact nofun

/-- The loop ends with the counter and the file as they are. -/
theorem Loop.Inv.stop {base n m : Nat} {r r' : Recording} {ret : EspErr}
    (h : (Loop.going r).Inv base n) (written : r'.wavWritten = r.wavWritten)
    (accepted : r'.stream.accepted = r.stream.accepted) (rounds : r'.reads ≤ wavSize)
    (whole : ret = espOk → wavSize ≤ r.wavWritten) : (Loop.ended ret r').Inv base m := by
  refine ⟨?_, ?_, rounds, nofun, ?_⟩
  · exact (accepted.trans h.counted).trans (congrArg (base + ·) written.symm)
  · exact written.trans_le h.bounded
  · rintro _ _ ⟨⟩ ok
    exact written ▸ whole ok

theorem Loop.Inv.pass {env : RecordEnv} {base n : Nat} {l : Loop} (h : l.Inv base n) :
    (pass env l).Inv base (n + 1) := by
  cases l with
  | ended ret r => exact ⟨h.counted, h.bounded, h.rounds, nofun, h.whole⟩
  | going r =>
    by_cases more : r.wavWritten < wavSize
    · by_cases go : (env.read r.reads).Usable ∧ (env.push (r.reads + 1)).IsFull
      · have next : RecordWav.pass env (.going r) = .going (RecordWav.advance env r) := by
          rw [RecordWav.pass, if_pos more, recordStep_ok go.1 go.2]
        exact next ▸ h.advance more go.1 go.2
      · obtain ⟨ret, r', eq, bad, -, written, reads, accepted⟩ := recordStep_error go
        have next : RecordWav.pass env (.going r) = .ended ret r' := by
          rw [RecordWav.pass, if_pos more, eq]
        have passed := h.going r rfl
        exact next ▸ h.stop written accepted (by omega) fun ok => absurd ok bad
    · have next : RecordWav.pass env (.going r) = .ended espOk r := if_neg more
      exact next ▸ h.stop rfl rfl h.rounds fun _ => Nat.not_lt.1 more

/-- The loop as it is entered, with whatever the buffer and the stream hold. -/
def loopStart (rawBuff : List Byte) (stream : Stream Byte) : Recording := ⟨0, rawBuff, 0, stream⟩

theorem inv_passes (env : RecordEnv) (rawBuff : List Byte) (stream : Stream Byte) (n : Nat) :
    ((pass env)^[n] (.going (loopStart rawBuff stream))).Inv stream.accepted n := by
  induction n with
  | zero =>
    refine ⟨rfl, Nat.zero_le _, Nat.zero_le _, ?_, nofun⟩
    rintro _ ⟨⟩
    exact ⟨rfl, Nat.le_refl 0⟩
  | succ n ih =>
    rw [Function.iterate_succ_apply']
    exact ih.pass

theorem result_passes (env : RecordEnv) (l : Loop) (n : Nat) :
    ((pass env)^[n] l).result env = l.result env := by
  induction n with
  | zero => rfl
  | succ n ih => rw [Function.iterate_succ_apply', result_pass, ih]

/-- After every pass the counter is the number of data bytes the file has taken
and cannot wrap; at most `wavSize` passes read anything and the check after them
ends the loop; a loop that ends well has written all it wanted. -/
theorem recordLoop_passes (env : RecordEnv) (rawBuff : List Byte) (stream : Stream Byte) :
    (∀ n, ((pass env)^[n] (.going (loopStart rawBuff stream))).recording.reads ≤ wavSize ∧
      ((pass env)^[n] (.going (loopStart rawBuff stream))).recording.stream.accepted =
        stream.accepted +
          ((pass env)^[n] (.going (loopStart rawBuff stream))).recording.wavWritten ∧
      ((pass env)^[n] (.going (loopStart rawBuff stream))).recording.wavWritten ≤
        wavSize + 8191) ∧
    (pass env)^[wavSize + 1] (.going (loopStart rawBuff stream)) =
      .ended (recordLoop env (loopStart rawBuff stream)).1
        (recordLoop env (loopStart rawBuff stream)).2 ∧
    ((recordLoop env (loopStart rawBuff stream)).1 = espOk →
      stream.accepted + wavSize ≤
        (recordLoop env (loopStart rawBuff stream)).2.stream.accepted) := by
  have inv := inv_passes env rawBuff stream
  have result := result_passes env (.going (loopStart rawBuff stream)) (wavSize + 1)
  have last := inv (wavSize + 1)
  refine ⟨fun n => ⟨(inv n).rounds, (inv n).counted, (inv n).bounded⟩, ?_⟩
  cases ends : (pass env)^[wavSize + 1] (.going (loopStart rawBuff stream)) with
  | going r =>
    rw [ends] at last
    have reads := (last.going r rfl).1
    have few : r.reads ≤ wavSize := last.rounds
    omega
  | ended ret r =>
    rw [ends] at last result
    change (ret, r) = recordLoop env (loopStart rawBuff stream) at result
    rw [← result]
    refine ⟨rfl, fun ok => ?_⟩
    have counted : r.stream.accepted = stream.accepted + r.wavWritten := last.counted
    rw [counted]
    exact Nat.add_le_add_left (last.whole ret r rfl ok) _

end CameraBoard.RecordWav
