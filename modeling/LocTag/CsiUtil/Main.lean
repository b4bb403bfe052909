import LocTag.Fragment.StopMessage

/-!
# `csiutil`

`parse_opt` and `main` of `csiutil.c`: the options set static variables, the set-up may fail,
`pcap_loop` hands packets to `got_packet`, and the stop message is sent behind them.

`csiutil_sends` is about every run: what is sent is what a part of the packets makes, in order and
within the number of `-n`, and the stop message comes behind all of them or not at all.
-/

namespace LocTag

open Lib Lib.Fetch

/-! ### Options -/

/-- The static variables the options set.  A text is `none` where `parse_opt` was given `NULL`. -/
structure CsiUtilArgs where
  ifname : List Char := "wlan0".toList
  numPackets : ℤ := 1
  pktType : ℤ := 0
  filterExp : Option (List Char) := some []
  filepath : Option (List Char) := some []
  mode : ℤ := 1
  delay : ℤ := 0
  logLevel : ℤ := 2

/-- `strtol(arg, NULL, 0)` -/
def argInt (arg : List Char) : ℤ := ((strtol arg 0).map Prod.fst).getD 0

namespace CsiUtilArgs

/-- `parse_opt`; `none` for `ARGP_ERR_UNKNOWN`, and where `strtol` is given `NULL`. -/
def parseOpt (key : Char) (arg : Option (List Char)) (st : CsiUtilArgs) : Option CsiUtilArgs :=
  match key, arg with
  | 'I', some arg => some { st with ifname := arg }
  | 'n', some arg => some { st with numPackets := argInt arg }
  | 't', some arg => some { st with pktType := argInt arg }
  | 'f', arg => some { st with filterExp := arg }
  | 'o', arg => some { st with filepath := arg }
  | 'm', some arg => some { st with mode := argInt arg }
  | 'd', some arg => some { st with delay := argInt arg }
  | 'l', some arg => some { st with logLevel := argInt arg }
  | _, _ => none

/-- `OPTION_ARG_OPTIONAL` -/
def argOptional : Char → Bool
  | 't' | 'f' | 'o' | 'm' => true
  | _ => false

/-- `argp_parse` over short options, `none` for other words.  An option with nothing behind it in its
word has no argument if that is optional, else it is `pending` for the next word. -/
def argpParse (st : CsiUtilArgs) (pending : Option Char) : List (List Char) → Option CsiUtilArgs
  | [] => if pending.isNone then some st else none
  | word :: words =>
    match pending, word with
    | some key, arg => (st.parseOpt key (some arg)).bind fun st => argpParse st none words
    | none, ['-', key] =>
      if argOptional key then (st.parseOpt key none).bind fun st => argpParse st none words
      else argpParse st (some key) words
    | none, '-' :: key :: arg => (st.parseOpt key (some arg)).bind fun st => argpParse st none words
    | none, _ => none

/-- The settings `got_packet` reads. -/
def opts (args : CsiUtilArgs) (dump : Bool) : CsiUtilOpts :=
  ⟨args.pktType, args.mode, args.logLevel, dump⟩

end CsiUtilArgs

/-! ### `pcap_loop` -/

/-- `pcap_loop`: the packets handed to `got_packet`, and whether it returns.  `reads` is what the
calls of `read_op` find, `none` for an error; one hands over `cnt` packets at most, all it finds where
`cnt` is not positive. -/
def pcapLoop (cnt : ℤ) : List (Option (List Handed)) → List Handed × Bool
  | [] => ([], false)
  | none :: _ => ([], true)
  | some batch :: reads =>
    if cnt ≤ 0 then
      let rest := pcapLoop cnt reads
      (batch ++ rest.1, rest.2)
    else
      let got := batch.take cnt.toNat
      let cnt := cnt - got.length
      if cnt ≤ 0 then (got, true)
      else
        let rest := pcapLoop cnt reads
        (got ++ rest.1, rest.2)

/-- The packets found before an error. -/
def captured : List (Option (List Handed)) → List Handed
  | some batch :: reads => batch ++ captured reads
  | _ => []

/-! ### `main` -/

/-- What `csiutil` meets: the calls of its set-up that succeed, what the calls of `read_op` find, and
whether `sendto` takes the stop message. -/
structure CsiUtilEnv where
  opens : List Char → Bool
  compiles : Option (List Char) → Bool
  installs : Bool
  socket : Bool
  dumpOpens : List Char → Bool
  reads : List (Option (List Handed))
  stopSent : Bool

/-- How a run ends: with the value of `main`, without a defined meaning, or not yet. -/
inductive CsiUtilEnd where
  | returned (code : ℤ)
  | undefined
  | waiting
  deriving DecidableEq

/-- The datagrams a run sends, and how it ends. -/
structure CsiUtilRun where
  sent : List (List UInt8)
  ending : CsiUtilEnd

/-- The calls of `got_packet`: the datagrams sent, and whether all calls have a meaning. -/
def gotPackets (opts : CsiUtilOpts) : List Handed → List (List UInt8) × Bool
  | [] => ([], true)
  | h :: hs => match run h.pk.mem (gotPacket opts h.pk) with
    | none => ([], false)
    | some _ =>
      let rest := gotPackets opts hs
      ((sentDatagram opts h).toList ++ rest.1, rest.2)

/-- `main` from `pcap_loop` on; at the end `fclose` is given `NULL` where no file is open. -/
def capturePackets (args : CsiUtilArgs) (env : CsiUtilEnv) (dump : Bool) : CsiUtilRun :=
  let handed := pcapLoop args.numPackets env.reads
  let done := gotPackets (args.opts dump) handed.1
  -- without a socket `sendto` fails
  let sent := if env.socket then done.1 else []
  if !done.2 then ⟨sent, .undefined⟩
  else if !handed.2 then ⟨sent, .waiting⟩
  else
    ⟨sent ++ if (args.opts dump).forwarding ∧ env.socket ∧ env.stopSent then [stopMsg] else [],
      if dump then .returned 0 else .undefined⟩

/-- `main`, after `argp_parse`. -/
def csiutilMain (args : CsiUtilArgs) (env : CsiUtilEnv) : CsiUtilRun :=
  if !env.opens args.ifname then ⟨[], .returned 2⟩
  else if !env.compiles args.filterExp then ⟨[], .returned 2⟩
  else if !env.installs then ⟨[], .returned 2⟩
  else match args.filepath with
    | none => ⟨[], .undefined⟩
    | some [] => capturePackets args env false
    | some path =>
      if env.dumpOpens path then capturePackets args env true else ⟨[], .returned (-1)⟩

/-! ### What is sent -/

section Loop

variable {cnt : ℤ} {reads : List (Option (List Handed))}

/-- Without a limit all packets are handed over, and the loop returns at an error only. -/
theorem pcapLoop_unlimited (hcnt : cnt ≤ 0) :
    (pcapLoop cnt reads).1 = captured reads ∧ ((pcapLoop cnt reads).2 = true ↔ none ∈ reads) := by
  induction reads with
  | nil => simp [pcapLoop, captured]
  | cons read reads ih =>
    cases read with
    | none => simp [pcapLoop, captured]
    | some batch => simp [pcapLoop, captured, hcnt, ih]

/-- **With a limit the first packets are handed over**, and the loop returns when that is as many, or
at an error. -/
theorem pcapLoop_limited (hcnt : 0 < cnt) :
    (pcapLoop cnt reads).1 = (captured reads).take cnt.toNat ∧
      ((pcapLoop cnt reads).2 = true ↔ cnt ≤ (captured reads).length ∨ none ∈ reads) := by
  induction reads generalizing cnt with
  | nil =>
    have hnot : ¬ cnt ≤ 0 := by omega
    simp [pcapLoop, captured, hnot]
  | cons read reads ih =>
    cases read with
    | none => simp [pcapLoop, captured]
    | some batch =>
      rw [pcapLoop, if_neg (by omega)]
      simp only [captured, List.length_append, List.take_append, List.length_take]
      by_cases hlen : cnt ≤ batch.length
      · have hmin : min cnt.toNat batch.length = cnt.toNat := by omega
        rw [if_pos (by omega)]
        have hrest : cnt.toNat - batch.length = 0 := by omega
        rw [hrest, List.take_zero, List.append_nil]
        refine ⟨rfl, fun _ => .inl ?_, fun _ => rfl⟩
        push_cast
        omega
      · have hmin : min cnt.toNat batch.length = batch.length := by omega
        have hall : batch.take cnt.toNat = batch := List.take_of_length_le (by omega)
        obtain ⟨hfst, hsnd⟩ := @ih (cnt - batch.length) (by omega)
        have htoNat : (cnt - batch.length).toNat = cnt.toNat - batch.length := by omega
        rw [hmin, if_neg (by omega), hall]
        refine ⟨by rw [hfst, htoNat], ?_⟩
        rw [hsnd]
        push_cast
        simp only [List.mem_cons, reduceCtorEq, false_or]
        apply or_congr_left
        omega

/-- The packets handed over are the first ones found, within the limit. -/
theorem pcapLoop_first (cnt : ℤ) (reads : List (Option (List Handed))) :
    (pcapLoop cnt reads).1 <+: captured reads ∧ (0 < cnt → ((pcapLoop cnt reads).1.length : ℤ) ≤ cnt) := by
  by_cases hcnt : 0 < cnt
  · rw [(pcapLoop_limited hcnt).1, List.length_take]
    exact ⟨List.take_prefix _ _, fun _ => by omega⟩
  · rw [(pcapLoop_unlimited (Int.not_lt.1 hcnt)).1]
    exact ⟨List.prefix_rfl, fun h => absurd h hcnt⟩

/-- **When the loop has returned** it has handed over as many packets as asked for, or all before an
error. -/
theorem pcapLoop_returned (h : (pcapLoop cnt reads).2 = true) :
    0 < cnt ∧ ((pcapLoop cnt reads).1.length : ℤ) = cnt ∨
      none ∈ reads ∧ (pcapLoop cnt reads).1 = captured reads := by
  by_cases hcnt : 0 < cnt
  · obtain ⟨hfst, hsnd⟩ := pcapLoop_limited hcnt
    rw [hfst]
    by_cases hlong : cnt ≤ (captured reads).length
    · left
      refine ⟨hcnt, ?_⟩
      rw [List.length_take]
      omega
    · right
      exact ⟨(hsnd.1 h).resolve_left hlong, List.take_of_length_le (by omega)⟩
  · obtain ⟨hfst, hsnd⟩ := pcapLoop_unlimited (Int.not_lt.1 hcnt)
    exact .inr ⟨hsnd.1 h, hfst⟩

end Loop

section Sends

variable {opts : CsiUtilOpts} {hs : List Handed}

/-- Whether the output file is open makes no difference to what is sent. -/
theorem datagrams_opts (args : CsiUtilArgs) (dump : Bool) :
    datagrams (args.opts dump) hs = datagrams (args.opts false) hs := by
  unfold datagrams
  congr 1
  funext h
  simp only [sentDatagram, value_gotPacket]
  rfl

/-- The calls of `got_packet` send what a part of the packets makes, all of them if each call has a
meaning. -/
theorem gotPackets_first (opts : CsiUtilOpts) (hs : List Handed) :
    ∃ done, done <+: hs ∧ (gotPackets opts hs).1 = datagrams opts done ∧
      ((gotPackets opts hs).2 = true → done = hs) := by
  induction hs with
  | nil => exact ⟨[], List.prefix_rfl, rfl, fun _ => rfl⟩
  | cons h hs ih =>
    rw [gotPackets]
    cases run h.pk.mem (gotPacket opts h.pk) with
    | none => exact ⟨[], List.nil_prefix, rfl, nofun⟩
    | some r =>
      obtain ⟨done, hprefix, hsent, hall⟩ := ih
      refine ⟨h :: done, List.cons_prefix_cons.2 ⟨rfl, hprefix⟩, ?_, fun hdone => ?_⟩
      · simp only [hsent, datagrams, List.filterMap_cons]
        cases sentDatagram opts h <;> rfl
      · rw [hall hdone]

/-- Without STANDALONE each call has a meaning. -/
theorem gotPackets_of_not_standalone (hs : List Handed) (h : ¬ opts.standalone) :
    gotPackets opts hs = (datagrams opts hs, true) := by
  induction hs with
  | nil => rfl
  | cons h' hs ih =>
    have hrun : run h'.pk.mem (gotPacket opts h'.pk) = some (forwarded opts h'.pk.len) := by
      rw [gotPacket, if_neg fun hc => h hc.2, if_neg fun hc => h hc.2, run_pure]
    rw [gotPackets, hrun]
    simp only [ih, datagrams, List.filterMap_cons]
    cases sentDatagram opts h' <;> rfl

end Sends

/-- The stop message follows the datagrams of all packets handed over, which were as many as asked
for, or the last ones before an error. -/
def StopsAfter (args : CsiUtilArgs) (env : CsiUtilEnv) (hs : List Handed) : Prop :=
  (args.opts false).forwarding ∧
    (0 < args.numPackets ∧ (hs.length : ℤ) = args.numPackets ∨
      none ∈ env.reads ∧ hs = captured env.reads)

/-- Without a socket nothing is sent. -/
theorem sent_eq_nil_of_no_socket (args : CsiUtilArgs) {env : CsiUtilEnv} (dump : Bool)
    (h : env.socket = false) : (capturePackets args env dump).sent = [] := by
  unfold capturePackets
  simp only [h, Bool.false_eq_true, if_false, false_and, and_false, List.append_nil]
  split
  · rfl
  · split <;> rfl

theorem capturePackets_sends (args : CsiUtilArgs) (env : CsiUtilEnv) (dump : Bool) :
    ∃ hs, hs <+: captured env.reads ∧ (0 < args.numPackets → (hs.length : ℤ) ≤ args.numPackets) ∧
      ((capturePackets args env dump).sent = datagrams (args.opts false) hs ∨
        (capturePackets args env dump).sent = datagrams (args.opts false) hs ++ [stopMsg] ∧
          StopsAfter args env hs) := by
  obtain ⟨done, hprefix, hsent, hall⟩ := gotPackets_first (args.opts dump)
    (pcapLoop args.numPackets env.reads).1
  obtain ⟨hloop, hlimit⟩ := pcapLoop_first args.numPackets env.reads
  have hlen := hprefix.length_le
  rw [datagrams_opts] at hsent
  cases hsocket : env.socket with
  | false =>
    exact ⟨[], List.nil_prefix, fun h => h.le, .inl (sent_eq_nil_of_no_socket args dump hsocket)⟩
  | true =>
    unfold capturePackets
    refine ⟨done, hprefix.trans hloop, fun h => by have := hlimit h; omega, ?_⟩
    simp only [hsocket, if_true, hsent, true_and]
    split
    · exact .inl rfl
    · rename_i hdone
      split
      · exact .inl rfl
      · rename_i hreturned
        split
        · rename_i hstop
          obtain rfl := hall (by simpa using hdone)
          refine .inr ⟨rfl, hstop.1, ?_⟩
          exact pcapLoop_returned (by simpa using hreturned)
        · exact .inl (List.append_nil _)

/-- **What `csiutil` sends**, in every run: the datagrams of packets it found, from the first on, in
order and no more than asked for, and behind them nothing, or the stop message if these are all. -/
theorem csiutil_sends (args : CsiUtilArgs) (env : CsiUtilEnv) :
    ∃ hs, hs <+: captured env.reads ∧ (0 < args.numPackets → (hs.length : ℤ) ≤ args.numPackets) ∧
      ((csiutilMain args env).sent = datagrams (args.opts false) hs ∨
        (csiutilMain args env).sent = datagrams (args.opts false) hs ++ [stopMsg] ∧
          StopsAfter args env hs) := by
  have hnone : ∃ hs, hs <+: captured env.reads ∧
      (0 < args.numPackets → (hs.length : ℤ) ≤ args.numPackets) ∧
      (([] : List (List UInt8)) = datagrams (args.opts false) hs ∨
        [] = datagrams (args.opts false) hs ++ [stopMsg] ∧ StopsAfter args env hs) :=
    ⟨[], List.nil_prefix, fun h => h.le, .inl rfl⟩
  unfold csiutilMain
  split
  · exact hnone
  split
  · exact hnone
  split
  · exact hnone
  split
  · exact hnone
  · exact capturePackets_sends args env false
  · split
    · exact capturePackets_sends args env true
    · exact hnone

end LocTag
