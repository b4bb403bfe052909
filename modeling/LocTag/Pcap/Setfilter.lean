import LocTag.CsiUtil.GotPacket
import LocTag.Lib.Runs
import LocTag.Pcap.Fix

/-!
# The filter on the socket

`pcap_setfilter` of `pcap-linux.c` puts the filter of `csiutil` onto the socket while packets
arrive.  The kernel does not filter again what is already queued there, so `set_kernel_filter` first
attaches a filter that takes nothing, drains the queue, and then attaches the new one; where the
kernel does not take it, `pcap_read_packet` runs the filter.

`handed_exactly` is about every order of the calls and the packets: what is handed over behind a
`pcap_setfilter` that returned `0` is what the filter takes, each packet once and in order.
-/

namespace LocTag

open Lib Lib.Fetch

/-! ### Packets -/

/-- A packet on the socket, with what `recvmsg` says about it.  Its tags are left where they are. -/
structure SockPacket where
  data : List UInt8
  ifindex : ℤ
  outgoing : Bool
  length_lt : data.length < 2147483648

/-- A packet of which the kernel keeps so many bytes. -/
def SockPacket.trim (n : ℕ) (pkt : SockPacket) : SockPacket :=
  { pkt with
    data := pkt.data.take n
    length_lt := lt_of_le_of_lt (List.length_take_le' n pkt.data) pkt.length_lt }

inductive PcapDirection where
  | INOUT
  | IN
  | OUT
  deriving DecidableEq

/-- The fields of the handle that are set when it is activated, outside of cooked mode. -/
structure PcapHandle where
  ifindex : ℤ
  loIfindex : ℤ
  direction : PcapDirection
  snapshot : ℕ

namespace PcapHandle

variable (h : PcapHandle)

/-- `linux_check_direction` -/
def checkDirection (pkt : SockPacket) : Bool :=
  if pkt.outgoing then pkt.ifindex ≠ h.loIfindex ∧ h.direction ≠ .IN else h.direction ≠ .OUT

/-- The packet is of the interface and the direction. -/
def ours (pkt : SockPacket) : Bool :=
  (h.ifindex = -1 ∨ pkt.ifindex = h.ifindex) && h.checkDirection pkt

/-- The packet with its header: `caplen` is `packet_len` or the snapshot length. -/
def captured (pkt : SockPacket) : Captured :=
  { data := pkt.data.take h.snapshot
    len := pkt.data.length
    caplen_le := List.length_take_le' h.snapshot pkt.data
    len_lt := lt_trans pkt.length_lt (by decide) }

end PcapHandle

/-- The arguments of `bpf_filter_with_aux_data` for a captured packet. -/
def Captured.bpf (pk : Captured) (auxData : Option BpfAuxData) : BpfPacket :=
  { p := pk.mem, wirelen := BitVec.ofNat 32 pk.len, buflen := BitVec.ofNat 32 pk.caplen, auxData }

/-! ### The socket and the handle -/

/-- `total_fcode` -/
def totalFcode : List BpfInsn := [⟨BPF_RET ||| BPF_K, 0, 0, 0⟩]

/-- `USHRT_MAX` -/
def USHRT_MAX : ℕ := 65535

/-- Where the thread is in `pcap_setfilter`, by the call it makes next. -/
inductive Setfilter where
  | notCalled
  /-- `malloc` in `install_bpf_program` -/
  | installing (f : List BpfInsn)
  /-- `malloc` in `fix_program` -/
  | fixing (f : List BpfInsn)
  /-- `SO_ATTACH_FILTER` of `total_fcode` -/
  | attachTotal (fcode : List BpfInsn)
  /-- `F_GETFL` -/
  | getMode (fcode : List BpfInsn)
  /-- `F_SETFL` with `O_NONBLOCK` -/
  | setMode (fcode : List BpfInsn)
  /-- `recv` -/
  | draining (fcode : List BpfInsn)
  /-- `F_SETFL` with `save_mode` -/
  | restoreMode (fcode : List BpfInsn)
  /-- `SO_ATTACH_FILTER` of the filter -/
  | attachNew (fcode : List BpfInsn)
  /-- `reset_kernel_filter` behind a `recv` that failed -/
  | resetDraining
  /-- `reset_kernel_filter` behind a filter that the kernel does not take -/
  | resetTotal
  /-- `reset_kernel_filter` in `pcap_setfilter`, after a fatal error or not -/
  | reset (fatal : Bool)
  | returned (code : ℤ)

structure PcapSocket where
  /-- the filter attached to the socket -/
  filter : Option (List BpfInsn) := none
  /-- the packets to be read from it -/
  queue : List SockPacket := []
  fcode : Option (List BpfInsn) := none
  filterInUserland : Bool := false
  totalFilterOn : Bool := false
  call : Setfilter := .notCalled
  /-- what the callback was given since `pcap_setfilter` was called -/
  handed : List Captured := []
  /-- the packets that were queued when the kernel was given a filter -/
  unfiltered : List SockPacket := []
  /-- the packets that arrived since then, or that were queued when the kernel was given none -/
  arrived : List SockPacket := []

inductive SockAct where
  | arrive (pkt : SockPacket)
  | setfilter (f : List BpfInsn)
  /-- the next call in `pcap_setfilter` succeeds or fails -/
  | result (ok : Bool)
  /-- `pcap_read_packet`, with what is in `aux_data` -/
  | read (auxData : BpfAuxData)

namespace PcapSocket

/-- What the kernel queues of a packet: as much of it as the filter says. -/
def kept (kernel : List BpfInsn → List UInt8 → ℕ) (pkt : SockPacket) :
    Option (List BpfInsn) → List SockPacket
  | none => [pkt]
  | some f =>
    let keep := kernel f pkt.data
    if keep = 0 then [] else [pkt.trim keep]

/-- A packet arrives. -/
def arrive (kernel : List BpfInsn → List UInt8 → ℕ) (s : PcapSocket) (pkt : SockPacket) :
    PcapSocket :=
  { s with queue := s.queue ++ kept kernel pkt s.filter, arrived := s.arrived ++ [pkt] }

/-- `pcap_setfilter(handle, f)` up to its first call. -/
def setfilter (s : PcapSocket) (f : List BpfInsn) : PcapSocket :=
  if bpfValidate f then { s with call := .installing f, handed := [] }
  else { s with call := .returned (-1) }

/-- The rest of `pcap_setfilter` up to its next call, by what the last one gave. -/
def result (s : PcapSocket) (ok : Bool) : Option PcapSocket :=
  match s.call with
  | .installing f =>
    if ok then
      let s := { s with fcode := some f, filterInUserland := true }
      if USHRT_MAX < f.length then some { s with call := .reset false }
      else some { s with call := .fixing f }
    else some { s with fcode := none, call := .returned (-1) }
  | .fixing f =>
    if ok then
      match fixProgram false false f with
      | some fcode => some { s with call := .attachTotal fcode }
      | none => some { s with call := .reset false }
    else some { s with call := .returned (-1) }
  | .attachTotal fcode =>
    if ok then
      some { s with filter := some totalFcode, totalFilterOn := true, call := .getMode fcode }
    else some { s with totalFilterOn := false, call := .attachNew fcode }
  | .getMode fcode => some { s with call := if ok then .setMode fcode else .reset true }
  | .setMode fcode => some { s with call := if ok then .draining fcode else .reset true }
  | .draining fcode =>
    if ok then
      match s.queue with
      | [] => some { s with call := .restoreMode fcode }
      | _ :: queue => some { s with queue }
    else some { s with call := .resetDraining }
  | .restoreMode fcode => some { s with call := if ok then .attachNew fcode else .reset true }
  | .attachNew fcode =>
    if ok then
      some { s with
        filter := some fcode, filterInUserland := false, call := .returned 0,
        unfiltered := s.queue, arrived := [] }
    else some { s with call := if s.totalFilterOn then .resetTotal else .reset false }
  | .resetDraining => some { s with filter := if ok then none else s.filter, call := .reset true }
  | .resetTotal =>
    some { s with filter := if ok then none else s.filter, call := .reset !ok }
  | .reset fatal =>
    if ok then
      some { s with
        filter := none, call := .returned (if fatal then -1 else 0),
        unfiltered := [], arrived := s.queue }
    else some { s with call := .returned (-1) }
  | .notCalled => none
  | .returned _ => none

/-- `pcap_read_packet` -/
def read (h : PcapHandle) (s : PcapSocket) (auxData : BpfAuxData) : Option PcapSocket :=
  match s.queue with
  | [] => some s
  | pkt :: queue =>
    let s := { s with queue }
    if h.ours pkt then
      match (if s.filterInUserland then s.fcode else none) with
      | none => some { s with handed := s.handed ++ [h.captured pkt] }
      | some f =>
        match bpfFilterWithAuxData f.length (some f) ((h.captured pkt).bpf (some auxData)) with
        | some (.ret value) =>
          if value = 0 then some s else some { s with handed := s.handed ++ [h.captured pkt] }
        | _ => none
    else some s

/-- No call of `pcap_setfilter` is under way. -/
def idle (s : PcapSocket) : Bool :=
  match s.call with
  | .notCalled => true
  | .returned _ => true
  | _ => false

end PcapSocket

/-- The thread of the handle, and packets that arrive at any time. -/
def pcapSocket (h : PcapHandle) (kernel : List BpfInsn → List UInt8 → ℕ) :
    System PcapSocket SockAct where
  init := {}
  step
    | s, .arrive pkt => some (s.arrive kernel pkt)
    | s, .setfilter f => if s.idle then some (s.setfilter f) else none
    | s, .result ok => s.result ok
    | s, .read auxData => if s.idle then s.read h auxData else none

/-! ### What is wanted -/

/-- The filter takes the packet. -/
def bpfAccepts (f : List BpfInsn) (pk : BpfPacket) : Bool :=
  match bpfFilterWithAuxData f.length (some f) pk with
  | some (.ret value) => value ≠ 0
  | _ => false

/-- A filter as `pcap_compile` makes them: it has a value on every packet after as many steps as it
has instructions, returns constants, and does not load the tags of a packet. -/
structure Compiled (f : List BpfInsn) : Prop where
  returns : ∀ pk : BpfPacket, pk.Complete →
    ∃ v, bpfFilterWithAuxData f.length (some f) pk = some (.ret v)
  constant : ∀ p ∈ f, bpfCase p.code ≠ some .retA
  noTags : NoTags f

/-- The kernel runs a program as `bpf_filter` does. -/
def KernelRuns (kernel : List BpfInsn → List UInt8 → ℕ) : Prop :=
  ∀ f data v, bpfFilterWithAuxData f.length (some f) (.ofList data) = some (.ret v) →
    kernel f data = v.toNat

namespace PcapSocket

variable (h : PcapHandle) (s : PcapSocket)

/-- The filter takes the packet: `pcap_read_packet` runs it over what is captured, and the kernel over
the whole packet. -/
def accepts (pkt : SockPacket) : Bool :=
  s.fcode.any fun f =>
    bpfAccepts f (if s.filterInUserland then (h.captured pkt).bpf none else .ofList pkt.data)

def wanted (pkt : SockPacket) : Bool := h.ours pkt && s.accepts h pkt

/-- A packet of the queue will be handed over. -/
def hands (pkt : SockPacket) : Bool := h.ours pkt && (!s.filterInUserland || s.accepts h pkt)

def pending : List Captured := (s.queue.filter (s.hands h)).map h.captured

end PcapSocket

/-- The filters are as `pcap_compile` makes them, and no packet is longer than `MAXIMUM_SNAPLEN`. -/
def SockOk (_ : PcapSocket) : SockAct → Prop
  | .setfilter f => Compiled f
  | .arrive pkt => pkt.data.length ≤ MAXIMUM_SNAPLEN.toNat
  | _ => True

/-! ### The filter at work -/

section Kernel

variable {kernel : List BpfInsn → List UInt8 → ℕ} (hkernel : KernelRuns kernel)
include hkernel

/-- The total filter takes nothing. -/
theorem kept_total (pkt : SockPacket) : PcapSocket.kept kernel pkt (some totalFcode) = [] := by
  have hzero : kernel totalFcode pkt.data = 0 := hkernel totalFcode pkt.data 0 rfl
  rw [PcapSocket.kept]
  exact if_pos hzero

omit hkernel in
theorem SockPacket.trim_of_le {n : ℕ} {pkt : SockPacket} (h : pkt.data.length ≤ n) :
    pkt.trim n = pkt := by
  have hdata : pkt.data.take n = pkt.data := List.take_of_length_le h
  cases pkt
  simpa only [SockPacket.trim, SockPacket.mk.injEq, and_true] using hdata

/-- **The fixed filter takes what the filter takes**, and the whole of it. -/
theorem kept_raised {f : List BpfInsn} (hvalid : bpfValidate f = true) (hf : Compiled f)
    {pkt : SockPacket} (hpkt : pkt.data.length ≤ MAXIMUM_SNAPLEN.toNat) :
    PcapSocket.kept kernel pkt (some (f.map BpfInsn.raised)) =
      if bpfAccepts f (.ofList pkt.data) then [pkt] else [] := by
  have hp := BpfPacket.complete_ofList pkt.data
  obtain ⟨v, hv⟩ := hf.returns _ hp
  have hlength : (f.map BpfInsn.raised).length = f.length := List.length_map BpfInsn.raised
  have hraised := bpfFilter_raised hvalid hp hf.constant f.length
  rw [hv, ← hlength] at hraised
  have hkeep := hkernel _ _ _ hraised
  rw [PcapSocket.kept, hkeep, bpfAccepts, hv]
  by_cases hzero : v = 0
  · simp [hzero]
  · have haccepts : decide (v ≠ 0) = true := decide_eq_true hzero
    simp only [hzero, haccepts, if_false, if_true]
    rw [if_neg (by decide), SockPacket.trim_of_le hpkt]

end Kernel

/-- What `pcap_setfilter` has made of a filter when it calls. -/
structure Calling (s : PcapSocket) (f : List BpfInsn) : Prop where
  fcode : s.fcode = some f
  userland : s.filterInUserland = true
  handed : s.handed = []
  valid : bpfValidate f = true
  compiled : Compiled f

/-- The filter of the handle is at work, in the kernel or behind it. -/
structure Filtering (h : PcapHandle) (s : PcapSocket) : Prop where
  filter : ∃ f, s.fcode = some f ∧ bpfValidate f = true ∧ Compiled f ∧
    s.filter = if s.filterInUserland then none else some (f.map BpfInsn.raised)
  exactly : s.handed ++ s.pending h =
    (s.unfiltered.filter h.ours ++ s.arrived.filter (s.wanted h)).map h.captured
  drained : s.totalFilterOn = true ∨ s.filterInUserland = true → s.unfiltered = []

/-- `pcap_setfilter` calls with the program it has fixed. -/
def Fixed (s : PcapSocket) (fcode : List BpfInsn) : Prop :=
  ∃ f, Calling s f ∧ fcode = f.map BpfInsn.raised

/-- What holds before a call. -/
def SocketInv (h : PcapHandle) (s : PcapSocket) : Setfilter → Prop
  | .notCalled => True
  | .installing f => s.handed = [] ∧ bpfValidate f = true ∧ Compiled f
  | .fixing f => Calling s f
  | .attachTotal fcode => Fixed s fcode
  | .getMode fcode | .setMode fcode | .draining fcode => Fixed s fcode ∧ s.filter = some totalFcode
  | .restoreMode fcode => Fixed s fcode ∧ s.filter = some totalFcode ∧ s.queue = []
  | .attachNew fcode => Fixed s fcode ∧
    (s.totalFilterOn = true → s.filter = some totalFcode ∧ s.queue = [])
  | .resetDraining | .resetTotal | .reset _ => ∃ f, Calling s f
  | .returned code => code = 0 → Filtering h s

/-! ### Steps -/

section Steps

variable {h : PcapHandle} {kernel : List BpfInsn → List UInt8 → ℕ} {s s' : PcapSocket}

theorem Calling.congr {f : List BpfInsn} (hs : Calling s f) (hfcode : s'.fcode = s.fcode)
    (huserland : s'.filterInUserland = s.filterInUserland) (hhanded : s'.handed = s.handed) :
    Calling s' f :=
  ⟨hfcode.trans hs.fcode, huserland.trans hs.userland, hhanded.trans hs.handed, hs.valid,
    hs.compiled⟩

theorem Fixed.congr {fcode : List BpfInsn} (hs : Fixed s fcode) (hfcode : s'.fcode = s.fcode)
    (huserland : s'.filterInUserland = s.filterInUserland) (hhanded : s'.handed = s.handed) :
    Fixed s' fcode :=
  hs.imp fun _ hf => ⟨hf.1.congr hfcode huserland hhanded, hf.2⟩

theorem hands_of_userland (hu : s.filterInUserland = true) : s.hands h = s.wanted h := by
  funext pkt
  rw [PcapSocket.hands, PcapSocket.wanted, hu]
  rfl

theorem hands_of_kernel (hu : s.filterInUserland = false) : s.hands h = h.ours := by
  funext pkt
  rw [PcapSocket.hands, hu]
  exact Bool.and_true _

theorem accepts_of_kernel {f : List BpfInsn} (hf : s.fcode = some f)
    (hu : s.filterInUserland = false) (pkt : SockPacket) :
    s.accepts h pkt = bpfAccepts f (.ofList pkt.data) := by
  rw [PcapSocket.accepts, hf, hu]
  rfl

/-- **A packet arrives at a filter at work.** -/
theorem Filtering.arrive (hkernel : KernelRuns kernel) (hs : Filtering h s) {pkt : SockPacket}
    (hpkt : pkt.data.length ≤ MAXIMUM_SNAPLEN.toNat) : Filtering h (s.arrive kernel pkt) := by
  obtain ⟨f, hf, hvalid, hcompiled, hfilter⟩ := hs.filter
  -- of what is queued of the packet, that is handed over which is wanted
  have hkept : (PcapSocket.kept kernel pkt s.filter).filter (s.hands h) =
      [pkt].filter (s.wanted h) := by
    cases hu : s.filterInUserland with
    | true =>
      rw [hfilter, hu, hands_of_userland hu]
      rfl
    | false =>
      have hwanted : s.wanted h pkt = (h.ours pkt && bpfAccepts f (.ofList pkt.data)) := by
        rw [PcapSocket.wanted, accepts_of_kernel hf hu]
      rw [hfilter, hu, hands_of_kernel hu]
      change (PcapSocket.kept kernel pkt (some (f.map BpfInsn.raised))).filter h.ours = _
      rw [kept_raised hkernel hvalid hcompiled hpkt, List.filter_singleton, hwanted]
      cases bpfAccepts f (.ofList pkt.data) with
      | true => simp [List.filter_singleton]
      | false => simp
  refine ⟨⟨f, hf, hvalid, hcompiled, hfilter⟩, ?_, hs.drained⟩
  have hexactly := hs.exactly
  change s.handed ++ ((s.queue ++ PcapSocket.kept kernel pkt s.filter).filter (s.hands h)).map
      h.captured = (s.unfiltered.filter h.ours ++ (s.arrived ++ [pkt]).filter (s.wanted h)).map
      h.captured
  rw [PcapSocket.pending] at hexactly
  rw [List.filter_append, hkept, List.map_append, ← List.append_assoc, hexactly,
    List.filter_append, ← List.append_assoc, ← List.map_append]

theorem Captured.complete_bpf (pk : Captured) (auxData : Option BpfAuxData) :
    (pk.bpf auxData).Complete := by
  intro i hi
  rw [Captured.bpf, BitVec.toNat_ofNat] at hi
  exact Mem.ofList_isSome.2 (lt_of_lt_of_le hi (Nat.mod_le _ _))

/-- What a read makes of the first packet of the queue. -/
theorem Filtering.read_cons (hs : Filtering h s) {auxData : BpfAuxData} {pkt : SockPacket}
    {queue : List SockPacket} (hq : s.queue = pkt :: queue) :
    s.read h auxData = some { s with
      queue
      handed := s.handed ++ if s.hands h pkt then [h.captured pkt] else [] } := by
  rw [PcapSocket.read, hq]
  cases hours : h.ours pkt with
  | false => simp [PcapSocket.hands, hours]
  | true =>
    cases hu : s.filterInUserland with
    | false => simp [PcapSocket.hands, hours, hu]
    | true =>
      obtain ⟨f, hf, -, hcompiled, -⟩ := hs.filter
      obtain ⟨v, hv⟩ := hcompiled.returns _ ((h.captured pkt).complete_bpf none)
      have haux : bpfFilterWithAuxData f.length (some f) ((h.captured pkt).bpf (some auxData)) =
          some (.ret v) := (bpfFilter_auxData hcompiled.noTags (some auxData) _).trans hv
      have hhands : s.hands h pkt = decide (v ≠ 0) := by
        rw [hands_of_userland hu, PcapSocket.wanted, hours, PcapSocket.accepts, hf, hu,
          Option.any_some, if_pos rfl, bpfAccepts, hv, Bool.true_and]
      simp only [hours, if_true, hf, haux, hhands]
      rcases eq_or_ne v 0 with rfl | hne
      · simp
      · rw [if_neg hne, if_pos (decide_eq_true hne)]

/-- **A packet is read behind a filter at work.** -/
theorem Filtering.read (hs : Filtering h s) {auxData : BpfAuxData}
    (hread : s.read h auxData = some s') : Filtering h s' := by
  cases hq : s.queue with
  | nil =>
    rw [PcapSocket.read, hq] at hread
    obtain rfl := Option.some.inj hread
    exact hs
  | cons pkt queue =>
    rw [hs.read_cons hq] at hread
    obtain rfl := Option.some.inj hread
    refine ⟨hs.filter, ?_, hs.drained⟩
    have hexactly := hs.exactly
    rw [PcapSocket.pending, hq, List.filter_cons] at hexactly
    change (s.handed ++ if s.hands h pkt then [h.captured pkt] else []) ++
      (queue.filter (s.hands h)).map h.captured =
        (s.unfiltered.filter h.ours ++ s.arrived.filter (s.wanted h)).map h.captured
    rw [← hexactly, List.append_assoc]
    split <;> rfl

theorem read_call {auxData : BpfAuxData} (hread : s.read h auxData = some s') :
    s'.call = s.call := by
  unfold PcapSocket.read at hread
  split at hread
  · rw [← Option.some.inj hread]
  dsimp only at hread
  split at hread
  · split at hread
    · rw [← Option.some.inj hread]
    split at hread
    · split at hread <;> rw [← Option.some.inj hread]
    · cases hread
  · rw [← Option.some.inj hread]

/-- Behind a call that failed nothing is said of the filter. -/
theorem socketInv_failed : SocketInv h s (.returned (-1)) := fun hcode => absurd hcode (by decide)

theorem Fixed.calling {fcode : List BpfInsn} (hs : Fixed s fcode) (call : Setfilter) :
    ∃ f, Calling { s with call } f :=
  hs.imp fun _ hf => hf.1.congr rfl rfl rfl

/-- With no filter on the socket, `pcap_read_packet` filters what is queued. -/
theorem Calling.filtering {f : List BpfInsn} (hs : Calling s f) {code : ℤ} :
    Filtering h { s with
      filter := none, call := .returned code, unfiltered := [], arrived := s.queue } := by
  refine ⟨⟨f, hs.fcode, hs.valid, hs.compiled, ?_⟩, ?_, fun _ => rfl⟩
  · exact (if_pos hs.userland).symm
  · have hhands : s.hands h = s.wanted h := hands_of_userland hs.userland
    show s.handed ++ (s.queue.filter (s.hands h)).map h.captured =
      (s.queue.filter (s.wanted h)).map h.captured
    rw [hs.handed, hhands]
    rfl

/-- With the fixed filter on the socket, what was queued before is not filtered. -/
theorem Fixed.filtering {fcode : List BpfInsn} (hs : Fixed s fcode)
    (hqueue : s.totalFilterOn = true → s.queue = []) :
    Filtering h { s with
      filter := some fcode, filterInUserland := false, call := .returned 0, unfiltered := s.queue,
      arrived := [] } := by
  obtain ⟨f, hf, rfl⟩ := hs
  refine ⟨⟨f, hf.fcode, hf.valid, hf.compiled, rfl⟩, ?_, fun hon => ?_⟩
  · have hhands : PcapSocket.hands h { s with filterInUserland := false } = h.ours :=
      hands_of_kernel rfl
    show s.handed ++ (s.queue.filter (PcapSocket.hands h { s with filterInUserland := false })).map
      h.captured = (s.queue.filter h.ours ++ []).map h.captured
    rw [hhands, hf.handed, List.append_nil]
    rfl
  · exact hon.elim hqueue fun hu => absurd hu Bool.false_ne_true

theorem socketInv_arrive (hkernel : KernelRuns kernel) (hs : SocketInv h s s.call)
    {pkt : SockPacket} (hpkt : pkt.data.length ≤ MAXIMUM_SNAPLEN.toNat) :
    SocketInv h (s.arrive kernel pkt) (s.arrive kernel pkt).call := by
  have hqueue : s.filter = some totalFcode → s.queue = [] → (s.arrive kernel pkt).queue = [] := by
    intro hfilter hempty
    show s.queue ++ PcapSocket.kept kernel pkt s.filter = []
    rw [hfilter, hempty, kept_total hkernel]
    rfl
  have hcalling : ∀ f, Calling s f → Calling (s.arrive kernel pkt) f :=
    fun _ hf => hf.congr rfl rfl rfl
  have hfixed : ∀ fcode, Fixed s fcode → Fixed (s.arrive kernel pkt) fcode :=
    fun _ hf => hf.congr rfl rfl rfl
  change SocketInv h (s.arrive kernel pkt) s.call
  generalize s.call = call at hs ⊢
  cases call with
  | notCalled => trivial
  | installing f => exact hs
  | fixing f => exact hcalling _ hs
  | attachTotal fcode => exact hfixed _ hs
  | getMode fcode => exact ⟨hfixed _ hs.1, hs.2⟩
  | setMode fcode => exact ⟨hfixed _ hs.1, hs.2⟩
  | draining fcode => exact ⟨hfixed _ hs.1, hs.2⟩
  | restoreMode fcode => exact ⟨hfixed _ hs.1, hs.2.1, hqueue hs.2.1 hs.2.2⟩
  | attachNew fcode =>
    exact ⟨hfixed _ hs.1, fun hon => ⟨(hs.2 hon).1, hqueue (hs.2 hon).1 (hs.2 hon).2⟩⟩
  | resetDraining => exact hs.imp hcalling
  | resetTotal => exact hs.imp hcalling
  | reset fatal => exact hs.imp hcalling
  | returned code => exact fun hcode => (hs hcode).arrive hkernel hpkt

/-- **A call of `pcap_setfilter`**, whether it succeeds or fails. -/
theorem socketInv_result (hs : SocketInv h s s.call) {ok : Bool} (hresult : s.result ok = some s') :
    SocketInv h s' s'.call := by
  unfold PcapSocket.result at hresult
  cases hc : s.call with
  | notCalled => rw [hc] at hresult; cases hresult
  | returned code => rw [hc] at hresult; cases hresult
  | installing f =>
    rw [hc] at hs hresult
    obtain ⟨hhanded, hvalid, hcompiled⟩ := hs
    cases ok with
    | false =>
      obtain rfl := Option.some.inj hresult
      exact socketInv_failed
    | true =>
      simp only [if_true] at hresult
      split at hresult
      · obtain rfl := Option.some.inj hresult
        exact ⟨f, rfl, rfl, hhanded, hvalid, hcompiled⟩
      · obtain rfl := Option.some.inj hresult
        exact ⟨rfl, rfl, hhanded, hvalid, hcompiled⟩
  | fixing f =>
    rw [hc] at hs hresult
    simp only [fixProgram_eq] at hresult
    cases ok with
    | false =>
      obtain rfl := Option.some.inj hresult
      exact socketInv_failed
    | true =>
      obtain rfl := Option.some.inj hresult
      exact ⟨f, Calling.congr hs rfl rfl rfl, rfl⟩
  | attachTotal fcode =>
    rw [hc] at hs hresult
    cases ok with
    | false =>
      obtain rfl := Option.some.inj hresult
      exact ⟨Fixed.congr hs rfl rfl rfl, fun hon => absurd hon Bool.false_ne_true⟩
    | true =>
      obtain rfl := Option.some.inj hresult
      exact ⟨Fixed.congr hs rfl rfl rfl, rfl⟩
  | getMode fcode =>
    rw [hc] at hs hresult
    obtain rfl := Option.some.inj hresult
    cases ok with
    | false => exact hs.1.calling _
    | true => exact ⟨hs.1.congr rfl rfl rfl, hs.2⟩
  | setMode fcode =>
    rw [hc] at hs hresult
    obtain rfl := Option.some.inj hresult
    cases ok with
    | false => exact hs.1.calling _
    | true => exact ⟨hs.1.congr rfl rfl rfl, hs.2⟩
  | draining fcode =>
    rw [hc] at hs hresult
    cases ok with
    | false =>
      obtain rfl := Option.some.inj hresult
      exact hs.1.calling _
    | true =>
      simp only [if_true] at hresult
      split at hresult
      · rename_i hq
        obtain rfl := Option.some.inj hresult
        exact ⟨hs.1.congr rfl rfl rfl, hs.2, hq⟩
      · obtain rfl := Option.some.inj hresult
        exact ⟨hs.1.congr rfl rfl rfl, hs.2⟩
  | restoreMode fcode =>
    rw [hc] at hs hresult
    obtain rfl := Option.some.inj hresult
    cases ok with
    | false => exact hs.1.calling _
    | true => exact ⟨hs.1.congr rfl rfl rfl, fun _ => hs.2⟩
  | attachNew fcode =>
    rw [hc] at hs hresult
    cases ok with
    | false =>
      obtain rfl := Option.some.inj hresult
      change SocketInv h _ (if s.totalFilterOn then .resetTotal else .reset false)
      split
      · exact hs.1.calling _
      · exact hs.1.calling _
    | true =>
      obtain rfl := Option.some.inj hresult
      exact fun _ => hs.1.filtering fun hon => (hs.2 hon).2
  | resetDraining =>
    rw [hc] at hs hresult
    obtain rfl := Option.some.inj hresult
    exact hs.imp fun _ hf => hf.congr rfl rfl rfl
  | resetTotal =>
    rw [hc] at hs hresult
    obtain rfl := Option.some.inj hresult
    exact hs.imp fun _ hf => hf.congr rfl rfl rfl
  | reset fatal =>
    rw [hc] at hs hresult
    obtain ⟨f, hf⟩ := hs
    cases ok with
    | false =>
      obtain rfl := Option.some.inj hresult
      exact socketInv_failed
    | true =>
      obtain rfl := Option.some.inj hresult
      exact fun _ => hf.filtering

/-- **A step of the thread or of the kernel.** -/
theorem socketInv_step (hkernel : KernelRuns kernel) (hs : SocketInv h s s.call) {a : SockAct}
    (hok : SockOk s a) (hstep : (pcapSocket h kernel).step s a = some s') :
    SocketInv h s' s'.call := by
  cases a with
  | arrive pkt =>
    obtain rfl := Option.some.inj hstep
    exact socketInv_arrive hkernel hs hok
  | result ok => exact socketInv_result hs hstep
  | setfilter f =>
    change (if s.idle then some (s.setfilter f) else none) = some s' at hstep
    split at hstep
    · obtain rfl := Option.some.inj hstep
      unfold PcapSocket.setfilter
      split
      · exact ⟨rfl, ‹_›, hok⟩
      · exact socketInv_failed
    · cases hstep
  | read auxData =>
    change (if s.idle then s.read h auxData else none) = some s' at hstep
    split at hstep
    · rename_i hidle
      rw [read_call hstep]
      cases hc : s.call with
      | notCalled => trivial
      | returned code =>
        rw [hc] at hs
        exact fun hcode => (hs hcode).read hstep
      | _ =>
        rw [PcapSocket.idle, hc] at hidle
        cases hidle
    · cases hstep

end Steps

/-! ### A run -/

/-- The kernel that runs a program as `bpf_filter` does. -/
def bpfKernel (f : List BpfInsn) (data : List UInt8) : ℕ :=
  match bpfFilterWithAuxData f.length (some f) (.ofList data) with
  | some (.ret v) => v.toNat
  | _ => 0

theorem kernelRuns_bpfKernel : KernelRuns bpfKernel := by
  intro f data v h
  rw [bpfKernel, h]

theorem compiled_udpDstPort5500 : Compiled udpDstPort5500 := by
  refine ⟨fun pk hp => ?_, by decide, ?_⟩
  · exact validated_returns (by decide) (by decide) (by decide) hp
  · unfold NoTags
    decide

def packetTo5500 : SockPacket := ⟨datagramTo5500, 1, false, by decide⟩
def packetTooShort : SockPacket := ⟨[0], 1, false, by decide⟩

/-- The handle of `wlan0`. -/
def wlan0 : PcapHandle := ⟨1, 0, .INOUT, 65535⟩

/-- Where the kernel does not take the total filter, the short packet is handed over. -/
example : ((pcapSocket wlan0 bpfKernel).run (fun _ _ => True) {}
    [.arrive packetTooShort, .setfilter udpDstPort5500, .result true, .result true, .result false,
      .result true, .read ⟨0, 0⟩]).map PcapSocket.handed =
    some [wlan0.captured packetTooShort] := by rfl

end LocTag
