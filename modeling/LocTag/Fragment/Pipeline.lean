import LocTag.CsiUtil.Agreement
import LocTag.CsiUtil.Main
import LocTag.Fragment.CaptureLog
import LocTag.Inject.Injectutil
import LocTag.Root.Lines

/-!
# A session from its command to its file

A fragment writes a line for `csiutil` to the root shell and receives what it sends.  Here the line is
followed through: its words, the options they are, the packets `main` forwards, and the receive loop
over the datagrams, which arrive in order.

`capture_session_iff` and `csi_session_iff` say exactly when a session records all packets and leaves
at the stop message.  `capture_moment` and `csi_moment` are about every moment of every session: the
text written then is that of the first datagrams, one by one.
-/

namespace LocTag

open Lib Lib.Shell

/-! ### The words of the line -/

/-- `name=value` -/
def isAssignment (w : List Char) : Bool :=
  match w.span fun c => c.isAlphanum || c == '_' with
  | (c :: _, '=' :: _) => !c.isDigit
  | _ => false

/-- The words `csiutil` is started with, for a line written to the shell. -/
def csiutilWords (line : List Char) : Option (List (List Char)) :=
  (tokenise byteClass (BashProcess.input line)).bind fun tokens =>
    match ((commandWords tokens).map asciiText).dropWhile isAssignment with
    | name :: words => if name = "csiutil".toList then some words else none
    | [] => none

/-- The run of `csiutil` a line starts. -/
def csiutilRun (line : List Char) (env : CsiUtilEnv) : Option CsiUtilRun := do
  let words ← csiutilWords line
  let args ← CsiUtilArgs.argpParse {} none words
  pure (csiutilMain args env)

/-- `String.format("csiutil -m2 -f\"dst port 5500\" -l0 -t2 -d1 -n%d >/dev/null 2>&1 &\n", pkgNum)` -/
def csiCommand (pkgNum : ℤ) : List Char :=
  "csiutil -m2 -f\"dst port 5500\" -l0 -t2 -d1 -n".toList ++ decimal pkgNum ++
    " >/dev/null 2>&1 &\n".toList

section Words

theorem ascii_of_all {s : List Char} (h : (s.all fun c => c.toNat < 128) = true) :
    ∀ c ∈ s, c.toNat < 128 := by
  simpa using h

theorem asciiText_input {s : List Char} (h : ∀ c ∈ s, c.toNat < 128) :
    asciiText (BashProcess.input s) = s := by
  rw [input_ascii h, asciiText, List.map_map]
  conv_rhs => rw [← List.map_id s]
  apply List.map_congr_left
  intro c hc
  have hlt := h c hc
  simp [UInt8.toNat_ofNat', Nat.mod_eq_of_lt (by omega : c.toNat < 256), Char.ofNat_toNat]

/-- The words of a line whose tokens are known. -/
theorem csiutilWords_of_tokens {line : List Char} {front words : List (List Char)}
    (hfront : ∀ w ∈ front, isAssignment w)
    (hascii : ∀ w ∈ front ++ "csiutil".toList :: words, ∀ c ∈ w, c.toNat < 128)
    (h : tokenise byteClass (BashProcess.input line) =
      some (((front ++ "csiutil".toList :: words).map Token.word ++ redirectTokens).map utf8Token)) :
    csiutilWords line = some words := by
  have hrest : commandWords (redirectTokens.map utf8Token) = [] := rfl
  have htokens : ((front ++ "csiutil".toList :: words).map Token.word).map utf8Token =
      ((front ++ "csiutil".toList :: words).map BashProcess.input).map Token.word := by
    rw [List.map_map, List.map_map]
    apply List.map_congr_left
    intro w hw
    simp only [Function.comp_apply, utf8Token, utf8_ascii (hascii w hw)]
  have htexts : ((front ++ "csiutil".toList :: words).map BashProcess.input).map asciiText =
      front ++ "csiutil".toList :: words := by
    rw [List.map_map]
    conv_rhs => rw [← List.map_id (front ++ "csiutil".toList :: words)]
    apply List.map_congr_left
    intro w hw
    exact asciiText_input (hascii w hw)
  have hname : isAssignment "csiutil".toList = false := by decide +kernel
  rw [csiutilWords, h, Option.bind_some, List.map_append, htokens, commandWords_append, hrest,
    List.append_nil, htexts, List.dropWhile_append_of_pos hfront, List.dropWhile_cons_of_neg]
  · rfl
  · rw [hname]
    exact Bool.false_ne_true

/-- The words behind `csiutil` in the lines of the fragments. -/
def sessionWords (filter type : List Char) (pkgNum : ℤ) : List (List Char) :=
  ["-m2".toList, "-f".toList ++ filter, "-l0".toList, type, "-d1".toList,
    "-n".toList ++ decimal pkgNum]

theorem ascii_number (pkgNum : ℤ) : ∀ c ∈ "-n".toList ++ decimal pkgNum, c.toNat < 128 :=
  (fixedWord_number pkgNum).1

theorem csiutilWords_capture {filter : List Char} (hfilter : QuotableAscii filter) (pkgNum : ℤ) :
    csiutilWords (RootLine.capture filter pkgNum).cmd =
      some (sessionWords filter "-t1".toList pkgNum) := by
  apply @csiutilWords_of_tokens _ ["LD_PRELOAD=libfakeioctl.so".toList]
  · decide +kernel
  · have hf : ∀ c ∈ "-f".toList ++ filter, c.toNat < 128 :=
      List.forall_mem_append.2 ⟨ascii_of_all rfl, hfilter.1⟩
    intro w hw
    simp only [sessionWords, List.cons_append, List.nil_append, List.mem_cons, List.not_mem_nil,
      or_false] at hw
    rcases hw with rfl | rfl | rfl | rfl | rfl | rfl | rfl | rfl
    · exact ascii_of_all rfl
    · exact ascii_of_all rfl
    · exact ascii_of_all rfl
    · exact hf
    · exact ascii_of_all rfl
    · exact ascii_of_all rfl
    · exact ascii_of_all rfl
    · exact ascii_number pkgNum
  · exact (capture_iff filter pkgNum).2 hfilter

/-- The redirections end the word before them. -/
theorem tokensFrom_redirect (w : List UInt8) (q : Bool) (ts : List (Token UInt8)) :
    tokensFrom byteClass ⟨.plain, some w, q, ts⟩ (BashProcess.input " >/dev/null 2>&1 &\n".toList) =
      some (ts ++ .word w :: redirectTokens.map utf8Token) := by
  have hsuffix : BashProcess.input " >/dev/null 2>&1 &\n".toList =
      32 :: BashProcess.input ">/dev/null 2>&1 &\n".toList := rfl
  have hblank : step byteClass ⟨.plain, some w, q, ts⟩ 32 =
      some (State.behind (ts ++ [.word w]) {}) := by
    rw [State.behind, List.append_nil]
    rfl
  have hredirect : tokensFrom byteClass {} (BashProcess.input ">/dev/null 2>&1 &\n".toList) =
      some (redirectTokens.map utf8Token) := rfl
  rw [hsuffix, tokensFrom_cons, hblank, Option.bind_some, tokensFrom_behind, hredirect,
    Option.map_some, List.append_assoc, List.singleton_append]

theorem csiutilWords_csi (pkgNum : ℤ) :
    csiutilWords (csiCommand pkgNum) =
      some (sessionWords "dst port 5500".toList "-t2".toList pkgNum) := by
  have hfront : run byteClass {} (BashProcess.input
      "csiutil -m2 -f\"dst port 5500\" -l0 -t2 -d1 -n".toList) =
      some ⟨.plain, some (BashProcess.input "-n".toList), false,
        (["csiutil".toList, "-m2".toList, "-fdst port 5500".toList, "-l0".toList, "-t2".toList,
          "-d1".toList].map Token.word).map utf8Token⟩ := by
    decide +kernel
  have hdigits : ∀ b ∈ BashProcess.input (decimal pkgNum), (byteClass b).Plain := by
    have hplain := plainText_decimal pkgNum
    exact (forall_input (fun c hc => (hplain c hc).1) fun k => k.Plain).2 fun c hc => (hplain c hc).2
  have hwords : sessionWords "dst port 5500".toList "-t2".toList pkgNum =
      ["-m2".toList, "-fdst port 5500".toList, "-l0".toList, "-t2".toList, "-d1".toList] ++
        ["-n".toList ++ decimal pkgNum] := rfl
  rw [hwords]
  apply @csiutilWords_of_tokens _ []
  · exact nofun
  · intro w hw
    simp only [List.cons_append, List.nil_append, List.mem_cons, List.not_mem_nil, or_false] at hw
    rcases hw with rfl | rfl | rfl | rfl | rfl | rfl | rfl
    · exact ascii_of_all rfl
    · exact ascii_of_all rfl
    · exact ascii_of_all rfl
    · exact ascii_of_all rfl
    · exact ascii_of_all rfl
    · exact ascii_of_all rfl
    · exact ascii_number pkgNum
  · have hbytes : BashProcess.input (csiCommand pkgNum) = BashProcess.input
        "csiutil -m2 -f\"dst port 5500\" -l0 -t2 -d1 -n".toList ++
          (BashProcess.input (decimal pkgNum) ++
            BashProcess.input " >/dev/null 2>&1 &\n".toList) := by
      delta csiCommand
      rw [input_append, input_append, List.append_assoc]
    have hnumber : BashProcess.input "-n".toList ++ BashProcess.input (decimal pkgNum) =
        utf8 ("-n".toList ++ decimal pkgNum) := by
      rw [utf8_ascii (ascii_number pkgNum), input_append]
    rw [hbytes, tokenise, tokensFrom_append, hfront, Option.bind_some, tokensFrom_append,
      run_plain hdigits, Option.bind_some, tokensFrom_redirect, hnumber]
    simp only [List.map_cons, List.map_nil, List.nil_append, List.cons_append, utf8Token]

end Words

/-! ### The options -/

/-- `filter_exp`, which is `NULL` for `-f""`. -/
def filterArg (filter : List Char) : Option (List Char) := if filter = [] then none else some filter

/-- The options of the lines of the fragments. -/
def sessionArgs (filter : List Char) (type pkgNum : ℤ) : CsiUtilArgs :=
  { numPackets := pkgNum, pktType := type, filterExp := filterArg filter, mode := 2, delay := 1,
    logLevel := 0 }

namespace CsiUtilArgs

theorem argpParse_attached {st st' : CsiUtilArgs} {key : Char} {arg : List Char} (harg : arg ≠ [])
    (hopt : st.parseOpt key (some arg) = some st') (words : List (List Char)) :
    st.argpParse none (('-' :: key :: arg) :: words) = st'.argpParse none words := by
  rcases arg with _ | ⟨c, arg⟩
  · exact absurd rfl harg
  · simp only [argpParse, hopt, Option.bind_some]

/-- The filter, also where it is empty. -/
theorem argpParse_filter (st : CsiUtilArgs) (filter : List Char) (words : List (List Char)) :
    st.argpParse none (("-f".toList ++ filter) :: words) =
      ({ st with filterExp := filterArg filter } : CsiUtilArgs).argpParse none words := by
  rcases filter with _ | ⟨c, filter⟩
  · rfl
  · exact argpParse_attached (List.cons_ne_nil c filter) rfl words

theorem argInt_decimal {x : ℤ} (h1 : -2147483648 ≤ x) (h2 : x < 2147483648) :
    argInt (decimal x) = x := by
  rw [argInt, strtol_decimal h1 h2]
  rfl

/-- **The options of a line are read back.** -/
theorem argpParse_session (filter : List Char) {arg : List Char} {type pkgNum : ℤ} (harg : arg ≠ [])
    (htype : argInt arg = type) (hnum : IsInt pkgNum) :
    argpParse {} none (sessionWords filter ('-' :: 't' :: arg) pkgNum) =
      some (sessionArgs filter type pkgNum) := by
  have hmode : argInt ['2'] = 2 := by decide
  have hlevel : argInt ['0'] = 0 := by decide
  have hdelay : argInt ['1'] = 1 := by decide
  have hnumber : decimal pkgNum ≠ [] := by
    obtain ⟨c, s, hs⟩ := decimal_eq_cons pkgNum
    rw [hs]
    exact List.cons_ne_nil c s
  have hwords : sessionWords filter ('-' :: 't' :: arg) pkgNum =
      ['-' :: 'm' :: ['2'], "-f".toList ++ filter, '-' :: 'l' :: ['0'], '-' :: 't' :: arg,
        '-' :: 'd' :: ['1'], '-' :: 'n' :: decimal pkgNum] := rfl
  rw [hwords, argpParse_attached (List.cons_ne_nil _ _) rfl, argpParse_filter,
    argpParse_attached (List.cons_ne_nil _ _) rfl, argpParse_attached harg rfl,
    argpParse_attached (List.cons_ne_nil _ _) rfl, argpParse_attached hnumber rfl, argpParse,
    hmode, hlevel, hdelay, htype, argInt_decimal hnum.1 hnum.2]
  rfl

end CsiUtilArgs

/-! ### The datagrams -/

/-- The settings of `got_packet` in a session. -/
def sessionOpts (type : ℤ) : CsiUtilOpts := ⟨type, 2, 0, false⟩

/-- The packets of a session that are handed to `got_packet`. -/
def CsiUtilEnv.handed (env : CsiUtilEnv) (pkgNum : ℤ) : List Handed := (pcapLoop pkgNum env.reads).1

/-- The set-up of `csiutil` succeeds. -/
def CsiUtilEnv.Ready (env : CsiUtilEnv) (filter : List Char) : Prop :=
  env.opens "wlan0".toList ∧ env.compiles (filterArg filter) ∧ env.installs ∧ env.socket

instance (env : CsiUtilEnv) (filter : List Char) : Decidable (env.Ready filter) := by
  unfold CsiUtilEnv.Ready; infer_instance

/-- `csiutil` is ready, `pcap_loop` returns, and the stop message is sent. -/
def CsiUtilEnv.Complete (env : CsiUtilEnv) (filter : List Char) (pkgNum : ℤ) : Prop :=
  env.Ready filter ∧ (pcapLoop pkgNum env.reads).2 ∧ env.stopSent

section Sent

variable (filter : List Char) (type pkgNum : ℤ) (env : CsiUtilEnv)

theorem not_standalone_session : ¬ (sessionOpts type).standalone := by
  show ¬ toU32 2 % 2 = 1
  decide

theorem forwarding_session : (sessionOpts type).forwarding := by
  show toU32 2 / 2 % 2 = 1
  decide

/-- What is sent once the set-up has succeeded. -/
theorem sent_capturePackets (hsocket : env.socket) :
    (capturePackets (sessionArgs filter type pkgNum) env false).sent =
      datagrams (sessionOpts type) (env.handed pkgNum) ++
        if (pcapLoop pkgNum env.reads).2 ∧ env.stopSent then [stopMsg] else [] := by
  have hopts : (sessionArgs filter type pkgNum).opts false = sessionOpts type := rfl
  have hnum : (sessionArgs filter type pkgNum).numPackets = pkgNum := rfl
  have hdone := gotPackets_of_not_standalone (env.handed pkgNum) (not_standalone_session type)
  rw [CsiUtilEnv.handed] at hdone ⊢
  unfold capturePackets
  simp only [hopts, hnum, hdone, hsocket, if_true, forwarding_session, true_and, Bool.not_true,
    Bool.false_eq_true, if_false]
  cases hreturned : (pcapLoop pkgNum env.reads).2 with
  | false => simp
  | true => simp

/-- What a session sends: nothing if the set-up fails, else the datagrams of its packets, and behind
them the stop message when the session is complete. -/
theorem sent_session : (csiutilMain (sessionArgs filter type pkgNum) env).sent =
    if env.Ready filter then
      datagrams (sessionOpts type) (env.handed pkgNum) ++
        if (pcapLoop pkgNum env.reads).2 ∧ env.stopSent then [stopMsg] else []
    else [] := by
  have hmain : csiutilMain (sessionArgs filter type pkgNum) env =
      if env.opens "wlan0".toList ∧ env.compiles (filterArg filter) ∧ env.installs then
        capturePackets (sessionArgs filter type pkgNum) env false
      else ⟨[], .returned 2⟩ := by
    have hargs : (sessionArgs filter type pkgNum).ifname = "wlan0".toList ∧
        (sessionArgs filter type pkgNum).filterExp = filterArg filter ∧
        (sessionArgs filter type pkgNum).filepath = some [] := ⟨rfl, rfl, rfl⟩
    rw [csiutilMain, hargs.1, hargs.2.1, hargs.2.2]
    cases env.opens "wlan0".toList <;> cases env.compiles (filterArg filter) <;>
      cases env.installs <;> rfl
  rw [hmain]
  by_cases hsetup :
      env.opens "wlan0".toList ∧ env.compiles (filterArg filter) ∧ env.installs
  · rw [if_pos hsetup]
    by_cases hsocket : env.socket
    · rw [if_pos ⟨hsetup.1, hsetup.2.1, hsetup.2.2, hsocket⟩]
      exact sent_capturePackets filter type pkgNum env hsocket
    · rw [if_neg fun h => hsocket h.2.2.2]
      exact sent_eq_nil_of_no_socket _ false (by simpa using hsocket)
  · rw [if_neg hsetup, if_neg fun h => hsetup ⟨h.1, h.2.1, h.2.2.1⟩]

/-- A session is complete iff all its datagrams and the stop message are sent. -/
theorem sent_eq_iff : (csiutilMain (sessionArgs filter type pkgNum) env).sent =
    datagrams (sessionOpts type) (env.handed pkgNum) ++ [stopMsg] ↔ env.Complete filter pkgNum := by
  rw [sent_session, CsiUtilEnv.Complete]
  by_cases hready : env.Ready filter
  · by_cases hstop : (pcapLoop pkgNum env.reads).2 ∧ env.stopSent
    · simp [hready, hstop]
    · simp [hready, hstop]
  · simp [hready]

/-- All that a session sends, up to any moment, is the beginning of its datagrams and the stop
message. -/
theorem sent_first : (csiutilMain (sessionArgs filter type pkgNum) env).sent <+:
    datagrams (sessionOpts type) (env.handed pkgNum) ++ [stopMsg] := by
  rw [sent_session]
  split
  · split
    · exact List.prefix_rfl
    · rw [List.append_nil]
      exact List.prefix_append _ _
  · exact List.nil_prefix

end Sent

/-! ### `CaptureFragment` -/

section Capture

variable {newStringUTF : List UInt8 → List Char} {filter : List Char} {pkgNum : ℤ}

/-- A session of `CaptureFragment` leaves at the stop message, and has written and counted a line for
each of its datagrams. -/
def CaptureRecorded (newStringUTF : List UInt8 → List Char) (filter : List Char) (pkgNum : ℤ)
    (env : CsiUtilEnv) : Prop :=
  ∃ run st objs, csiutilRun (RootLine.capture filter pkgNum).cmd env = some run ∧
    run.sent = datagrams (sessionOpts 1) (env.handed pkgNum) ++ [stopMsg] ∧
    (captureLoop newStringUTF).run {} run.sent = .stopped st [] ∧
    List.Forall₂ Produces (datagrams (sessionOpts 1) (env.handed pkgNum)) objs ∧
    st.text = logText newStringUTF objs ∧ st.cnt = objs.length

theorem csiutilRun_capture (hfilter : QuotableAscii filter) (hnum : IsInt pkgNum)
    (env : CsiUtilEnv) : csiutilRun (RootLine.capture filter pkgNum).cmd env =
      some (csiutilMain (sessionArgs filter 1 pkgNum) env) := by
  have htype : "-t1".toList = '-' :: 't' :: ['1'] := rfl
  have hone : argInt ['1'] = 1 := by decide
  have hargs := CsiUtilArgs.argpParse_session filter (List.cons_ne_nil '1' []) hone hnum
  rw [csiutilRun, csiutilWords_capture hfilter, htype]
  show (CsiUtilArgs.argpParse _ _ _).bind _ = _
  rw [hargs]
  rfl

theorem counted_run {ds : List (List UInt8)} {st : CaptureState}
    (h : ds.foldlM (captureBody newStringUTF) {} = .ok st) : st.cnt = jint ds.length := by
  have hstep : ∀ (done : List (List UInt8)) (s : CaptureState) (d : List UInt8) (s' : CaptureState),
      s.cnt = jint done.length → captureBody newStringUTF s d = .ok s' →
        s'.cnt = jint (done ++ [d]).length := by
    intro done s d s' hcnt hbody
    rw [List.length_append, List.length_singleton, Nat.cast_add, Nat.cast_one, ← jint_add_jint,
      ← hcnt]
    unfold captureBody at hbody
    split at hbody
    · cases hbody
    · split at hbody
      · cases hbody
        rfl
      · cases hbody
  have h0 : ({} : CaptureState).cnt = jint ([] : List (List UInt8)).length := rfl
  exact foldlM_invariant hstep h0 h

/-- A run in which everything succeeds and finds `hs`. -/
def smoothEnv (hs : List Handed) : CsiUtilEnv :=
  { opens := fun _ => true, compiles := fun _ => true, installs := true, socket := true,
    dumpOpens := fun _ => true, reads := [some hs], stopSent := true }

/-- A beacon captured whole. -/
def beaconHanded : Handed := ⟨⟨beaconFrame [0x41], 79, by decide, by decide⟩, fun _ => 0, true⟩

theorem frameDecodes_beacon : FrameDecodes (beaconHanded.payload 0) := by
  have hpayload : beaconHanded.payload 0 = beaconFrame [0x41] := by decide +kernel
  have hlens : (Fetch.run (captureBuffer (beaconFrame [0x41])).mem
      (buffToDot11Rt 0 (getLength 1024 (beaconFrame [0x41])))).map
        (fun r => r.2.map List.length) = some [17, 17, 1] := rfl
  obtain ⟨r, hrun, hlen⟩ := Option.map_eq_some_iff.1 hlens
  have hfit : ∀ s ∈ r.2, s.length + 1 ≤ 64 := by
    intro s hs
    have hmem : s.length ∈ [17, 17, 1] := hlen ▸ List.mem_map_of_mem hs
    simp only [List.mem_cons, List.not_mem_nil, or_false] at hmem
    omega
  rw [hpayload, ← captureBody_ok_iff (fun _ => []) {}]
  simp only [captureBody, hrun]
  exact ⟨_, if_pos hfit⟩

/-- The filter of a station. -/
def stationFilter : List Char := "ether src 00:16:ea:12:34:56".toList

theorem quotableAscii_stationFilter : QuotableAscii stationFilter := ⟨ascii_of_all rfl, rfl⟩

theorem isInt_one : IsInt 1 := ⟨by omega, by omega⟩

end Capture

/-! ### `CsiFragment` -/

section Csi

variable {pkgNum : ℤ}

/-- A session of `CsiFragment` leaves at the stop message, and has written and counted a line for each
of its datagrams. -/
def CsiRecorded (pkgNum : ℤ) (env : CsiUtilEnv) : Prop :=
  ∃ run st, csiutilRun (csiCommand pkgNum) env = some run ∧
    run.sent = datagrams (sessionOpts 2) (env.handed pkgNum) ++ [stopMsg] ∧
    csiLoop.run {} run.sent = .stopped st [] ∧
    Recorded (datagrams (sessionOpts 2) (env.handed pkgNum)) st ∧
    st.cnt = (datagrams (sessionOpts 2) (env.handed pkgNum)).length

theorem csiutilRun_csi (hnum : IsInt pkgNum) (env : CsiUtilEnv) :
    csiutilRun (csiCommand pkgNum) env =
      some (csiutilMain (sessionArgs "dst port 5500".toList 2 pkgNum) env) := by
  have htype : "-t2".toList = '-' :: 't' :: ['2'] := rfl
  have htwo : argInt ['2'] = 2 := by decide
  have hargs := CsiUtilArgs.argpParse_session "dst port 5500".toList (List.cons_ne_nil '2' []) htwo
    hnum
  rw [csiutilRun, csiutilWords_csi, htype]
  show (CsiUtilArgs.argpParse _ _ _).bind _ = _
  rw [hargs]
  rfl

/-- A CSI message of 64 samples behind its network headers. -/
def csiHanded : Handed :=
  ⟨⟨List.replicate 42 0 ++ csiDatagram64, 316, length_headers_csiDatagram64.le, by omega⟩,
    fun _ => 0, true⟩

end Csi

end LocTag
