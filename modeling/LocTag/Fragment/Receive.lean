import LocTag.Lib.Receive
import LocTag.Dot11.Bounds
import LocTag.Csi.Decode

/-!
# The receive loops of the fragments

`CaptureFragment` and `CsiFragment` receive datagrams on a UDP socket until one starts with the byte
`0xc5`, decode every other one and append a line of text to the file of the session.

The bodies of the two loops end for different reasons: that of `CaptureFragment` where the decoder
stays inside the buffer and its `sprintf` inside `buf` (`captureBody_ok_iff`), that of `CsiFragment`
where the decoded object has its samples, which `toString` counts (`csiBody_ok_iff`).
`csi_loop_records_iff` says when a sequence of datagrams is recorded whole.
-/

namespace LocTag

open Lib Lib.Fetch

/-! ### Receiving a datagram -/

section Receive

variable (size : ℕ) (d : List UInt8)

/-- A new `byte[size]` after `socket.receive`: the datagram, cut at the buffer. -/
def received (hsize : size < 2147483648) : JByteArray :=
  ⟨d.take size ++ List.replicate (size - d.length) 0, by simp; omega⟩

/-- `response.getLength()` -/
def getLength : ℕ := min d.length size

variable {size d} {hsize : size < 2147483648}

@[simp] theorem length_received : (received size d hsize).data.length = size := by
  simp [received]
  omega

theorem mem_received {i : ℕ} (hi : i < getLength size d) :
    (received size d hsize).mem i = d[i]? := by
  have hi : i < d.length ∧ i < size := by unfold getLength at hi; omega
  simp only [received, JByteArray.mem, Mem.ofList]
  rw [List.getElem?_append_left (by simp; omega), List.getElem?_take_of_lt hi.2]

/-- The first byte of the buffer is `b ≠ 0` iff the datagram starts with `b`. -/
theorem received_zero (hpos : 0 < size) {b : UInt8} (hb : b ≠ 0) :
    (received size d hsize).data[0]? = some b ↔ d.head? = some b := by
  cases d with
  | nil =>
    obtain ⟨k, rfl⟩ : ∃ k, size = k + 1 := ⟨size - 1, by omega⟩
    simp [received, List.replicate_succ, hb.symm]
  | cons c cs =>
    obtain ⟨k, rfl⟩ : ∃ k, size = k + 1 := ⟨size - 1, by omega⟩
    simp [received]

end Receive

/-- What ends a loop other than its stop test: an exception, or native code without a defined
meaning (a read outside the buffer, a `sprintf` past the end of `buf`). -/
inductive Fault where
  | exception (e : JavaException)
  | undefined
  deriving DecidableEq

/-- `buffer[0] == (byte) 0xc5` -/
def isStop (buffer : JByteArray) : Bool := buffer.data[0]? == some 0xc5

/-- The stop message of `csiutil`. -/
def stopMsg : List UInt8 := [0xc5]

section Stop

variable {size : ℕ} {hsize : size < 2147483648} {d : List UInt8}

theorem isStop_received (hpos : 0 < size) :
    isStop (received size d hsize) = true ↔ d.head? = some 0xc5 := by
  rw [isStop, beq_iff_eq, received_zero hpos (by simp)]

theorem isStop_received_eq_false (hpos : 0 < size) :
    isStop (received size d hsize) = false ↔ d.head? ≠ some 0xc5 := by
  rw [← Bool.not_eq_true]
  exact not_congr (isStop_received hpos)

end Stop

/-! ### `CaptureFragment` -/

section Capture

/-- What the loop of `CaptureFragment` has posted and written. -/
structure CaptureState where
  cnt : ℤ := 0
  rssi : ℤ := 0
  text : List Char := []

/-- `new byte[1024]` after `socket.receive`. -/
def captureBuffer (d : List UInt8) : JByteArray := received 1024 d (by omega)

variable (newStringUTF : List UInt8 → List Char)

def captureBody (st : CaptureState) (d : List UInt8) : Except Fault CaptureState :=
  match run (captureBuffer d).mem (buffToDot11Rt 0 (getLength 1024 d)) with
  | none => .error .undefined
  | some (obj, printed) =>
    if ∀ s ∈ printed, s.length + 1 ≤ 64 then
      .ok { cnt := jint (st.cnt + 1), rssi := obj.rssi,
            text := st.text ++ obj.toString newStringUTF ++ ['\n'] }
    else .error .undefined

/-- The receive loop of `CaptureFragment`. -/
def captureLoop : ReceiveLoop CaptureState Fault (List UInt8) where
  stop d := isStop (captureBuffer d)
  body := captureBody newStringUTF

/-- The decoder has a meaning on the datagram as it lies in the buffer. -/
def FrameDecodes (d : List UInt8) : Prop :=
  Accepted (captureBuffer d).mem 0 (getLength 1024 d) →
    FrameInside (captureBuffer d).mem 0 1024 ∧
    ¬ (IsBeacon (captureBuffer d).mem 0 ∧ HasSsid (captureBuffer d).mem 0 ∧
      SsidReaches (captureBuffer d).mem 0 64)

theorem captureBody_ok_iff (st : CaptureState) (d : List UInt8) :
    (∃ st', captureBody newStringUTF st d = .ok st') ↔ FrameDecodes d := by
  have hP : ∀ i, 0 ≤ i ∧ i < 1024 ↔ ((captureBuffer d).mem i).isSome := by
    intro i
    rw [JByteArray.mem, Mem.ofList_isSome, captureBuffer, length_received]
    omega
  have hlen : toU32 (getLength 1024 d) ≤ 1024 := by
    rw [toU32_natCast (by unfold getLength; omega)]
    exact Nat.min_le_right _ _
  have hreads := reads_buffToDot11Rt_iff (n := getLength 1024 d) (fun i hi => (hP i).1 hi)
    (by omega : 0 + toU32 (getLength 1024 d) ≤ 1024)
  simp only [hP] at hreads
  have hprint := printed_fits_iff (m := (captureBuffer d).mem) (o := 0) (n := getLength 1024 d)
  unfold captureBody
  cases hrun : run (captureBuffer d).mem (buffToDot11Rt 0 (getLength 1024 d)) with
  | none =>
    -- the decoder reads outside the buffer, so the frame is accepted and not inside
    have hnot : ¬ (0 + 4 ≤ 1024 ∧ (Accepted (captureBuffer d).mem 0 (getLength 1024 d) →
        FrameInside (captureBuffer d).mem 0 1024)) := by
      intro h
      rw [run_value (hreads.2 h)] at hrun
      cases hrun
    simp only [reduceCtorEq, exists_false, false_iff]
    exact fun h => hnot ⟨by omega, fun hacc => (h hacc).1⟩
  | some r =>
    obtain ⟨hr, rfl⟩ := run_eq_some_iff.1 hrun
    have hin := (hreads.1 hr).2
    simp only
    constructor
    · rintro ⟨st', hst'⟩ hacc
      split at hst'
      · rename_i hfit
        exact ⟨hin hacc, fun h => hprint.1 hfit ⟨hacc, h⟩⟩
      · cases hst'
    · intro h
      rw [if_pos (hprint.2 fun hov => (h hov.1).2 hov.2)]
      exact ⟨_, rfl⟩

end Capture

/-! ### `CsiFragment` -/

/-- What the loop of `CsiFragment` has posted and written. -/
structure CsiState where
  cnt : ℤ := 0
  seq : ℤ := 0
  text : List Char := []

/-- `new byte[2048]` after `socket.receive`. -/
def csiBuffer (d : List UInt8) : JByteArray := received 2048 d (by omega)

def csiBody (st : CsiState) (d : List UInt8) : Except Fault CsiState :=
  match run (csiBuffer d).mem (buffToCsi4339 0 (getLength 2048 d)) with
  | none => .error .undefined
  | some obj =>
    match obj.toString with
    | .error e => .error (.exception e)
    | .ok line =>
      .ok { cnt := jint (st.cnt + 1), seq := obj.seq, text := st.text ++ line ++ ['\n'] }

/-- The receive loop of `CsiFragment`. -/
def csiLoop : ReceiveLoop CsiState Fault (List UInt8) where
  stop d := isStop (csiBuffer d)
  body := csiBody

/-- What the decoder makes of a datagram. -/
def decodedCsi (d : List UInt8) : Csi4339 :=
  value (csiBuffer d).mem (buffToCsi4339 0 (getLength 2048 d))

/-- An accepted datagram: header with magic, and 64, 128 or 256 samples. -/
def CsiDatagram (d : List UInt8) : Prop := CsiWellFormed (Mem.ofList d) 0 d.length

instance (d : List UInt8) : Decidable (CsiDatagram d) := by unfold CsiDatagram; infer_instance

section Csi

variable {st st' : CsiState} {d : List UInt8}

theorem run_buffToCsi4339 (d : List UInt8) :
    run (csiBuffer d).mem (buffToCsi4339 0 (getLength 2048 d)) = some (decodedCsi d) := by
  refine run_value ((reads_buffToCsi4339 (csiBuffer d) (o := 0) ?_).imp fun i hi => ?_)
  · simp [csiBuffer, getLength]
  · refine Mem.ofList_isSome.2 (lt_of_lt_of_le hi.2 ?_)
    simp [csiBuffer, getLength]

theorem csiDatagram_iff (d : List UInt8) : (decodedCsi d).csi.isSome ↔ CsiDatagram d := by
  rw [decodedCsi, csi_isSome_iff (by unfold getLength; omega), CsiDatagram, CsiWellFormed,
    CsiWellFormed]
  have hlen : getLength 2048 d = 274 ∨ getLength 2048 d = 530 ∨ getLength 2048 d = 1042 ↔
      d.length = 274 ∨ d.length = 530 ∨ d.length = 1042 := by
    unfold getLength
    omega
  rw [hlen]
  apply and_congr_left
  intro h
  have hbyte : ∀ i < 4, (csiBuffer d).mem i = Mem.ofList d i :=
    fun i hi => mem_received (by unfold getLength; omega)
  simp [Mem.le32At, Mem.le16At, Mem.u8At, hbyte]

theorem csiBody_eq_ok_iff : csiBody st d = .ok st' ↔
    ∃ line, (decodedCsi d).toString = .ok line ∧ st' =
      { cnt := jint (st.cnt + 1), seq := (decodedCsi d).seq,
        text := st.text ++ line ++ ['\n'] } := by
  simp only [csiBody, run_buffToCsi4339]
  cases (decodedCsi d).toString with
  | error e => simp
  | ok line => simp [eq_comm]

theorem csiBody_ok_iff (st : CsiState) (d : List UInt8) :
    (∃ st', csiBody st d = .ok st') ↔ CsiDatagram d := by
  simp only [csiBody_eq_ok_iff]
  rw [← csiDatagram_iff, Csi4339.toString]
  cases (decodedCsi d).csi with
  | none => simp
  | some csi => simp

/-- What the loop has written and counted after the datagrams `ds`. -/
def Recorded (ds : List (List UInt8)) (st : CsiState) : Prop :=
  st.cnt = jint ds.length ∧ ∃ lines,
    List.Forall₂ (fun d line => (decodedCsi d).toString = .ok line) ds lines ∧
    st.text = lines.flatMap (· ++ ['\n'])

theorem recorded_step {ds : List (List UInt8)} (h : Recorded ds st)
    (hstep : csiBody st d = .ok st') : Recorded (ds ++ [d]) st' := by
  obtain ⟨hcnt, lines, hlines, htext⟩ := h
  obtain ⟨line, hline, rfl⟩ := csiBody_eq_ok_iff.1 hstep
  refine ⟨?_, lines ++ [line], List.rel_append hlines (.cons hline .nil), ?_⟩
  · rw [hcnt, jint_add_jint, List.length_append, List.length_singleton, Nat.cast_add, Nat.cast_one]
  · simp [htext]

/-- **The run of the loop over data records it all.** -/
theorem recorded_run {ds : List (List UInt8)} (h : ds.foldlM csiBody {} = .ok st) :
    Recorded ds st := by
  have h0 : Recorded [] {} := ⟨rfl, [], .nil, rfl⟩
  exact foldlM_invariant (fun _ _ _ _ hI hs => recorded_step hI hs) h0 h

end Csi

/-- **Every datagram is decoded, recorded and counted, and the loop leaves at the stop message**,
for datagrams that do not start with the stop byte, iff they all have a CSI header and one of the
accepted sizes, and `cnt` can count them. -/
theorem csi_loop_records_iff (ds : List (List UInt8)) (hds : ∀ d ∈ ds, d.head? ≠ some 0xc5) :
    (∃ st lines, csiLoop.run {} (ds ++ [stopMsg]) = .stopped st [] ∧
      List.Forall₂ (fun d line => (decodedCsi d).toString = .ok line) ds lines ∧
      st.text = lines.flatMap (· ++ ['\n']) ∧ st.cnt = ds.length) ↔
    (∀ d ∈ ds, CsiDatagram d) ∧ ds.length < 2147483648 := by
  have hz : csiLoop.stop stopMsg = true := (isStop_received (by omega)).2 rfl
  have hdata : ∀ d ∈ ds, csiLoop.stop d = false :=
    fun d hd => (isStop_received_eq_false (by omega)).2 (hds d hd)
  have hcnt : jint ds.length = ds.length ↔ ds.length < 2147483648 := by
    rw [jint_eq_self_iff]
    omega
  simp only [csiLoop.run_append_stop_iff hz, ← foldlM_eq_ok_iff csiBody_ok_iff ds {}]
  constructor
  · rintro ⟨st, lines, ⟨-, hst⟩, -, -, hst'⟩
    refine ⟨⟨st, hst⟩, hcnt.1 ?_⟩
    rw [← (recorded_run hst).1, hst']
  · rintro ⟨⟨st, hst⟩, hlt⟩
    obtain ⟨hc, lines, hlines, htext⟩ := recorded_run hst
    exact ⟨st, lines, ⟨hdata, hst⟩, hlines, htext, by rw [hc, hcnt.2 hlt]⟩

/-- The header with 64 samples, all `0`. -/
def csiDatagram64 : List UInt8 := List.replicate 4 0x11 ++ List.replicate 270 0

theorem csi_loop_records_one :
    (∃ st lines, csiLoop.run {} ([csiDatagram64] ++ [stopMsg]) = .stopped st [] ∧
      List.Forall₂ (fun d line => (decodedCsi d).toString = .ok line) [csiDatagram64] lines ∧
      st.text = lines.flatMap (· ++ ['\n']) ∧ st.cnt = 1) ↔
    (∀ d ∈ [csiDatagram64], CsiDatagram d) ∧ 1 < 2147483648 :=
  csi_loop_records_iff [csiDatagram64] (by decide)

/-- A datagram that is not CSI ends the session. -/
theorem csi_loop_ends_early :
    ¬ ∀ ds : List (List UInt8), (∀ d ∈ ds, d.head? ≠ some 0xc5) →
      ∃ st lines, csiLoop.run {} (ds ++ [stopMsg]) = .stopped st [] ∧
        List.Forall₂ (fun d line => (decodedCsi d).toString = .ok line) ds lines ∧
        st.text = lines.flatMap (· ++ ['\n']) ∧ st.cnt = ds.length := by
  intro hall
  obtain ⟨st, _, hrun, -⟩ := hall [[0]] (by simp)
  have hz : csiLoop.stop stopMsg = true := (isStop_received (by omega)).2 rfl
  have hdata := (csiLoop.exists_run_append_stop_iff hz csiBody_ok_iff [[0]] {}).1 ⟨st, hrun⟩
  exact absurd (hdata [0] (by decide)).2 (by decide)

end LocTag
