import LocTag.Pcap.Filter

/-!
# Filters that are valid

`bpf_validate` looks at a program instruction by instruction before libpcap runs it.

`validated_ends` says what is left to go wrong in a run of a valid program, whatever the packet is:
nothing outside of the program, of the packet and of `mem` is touched, and nothing is divided by
zero.  `validated_returns` is about programs that have a value on every packet; `bpf_validate` does
not ask for what they need, not even that there is no jump back.
-/

namespace LocTag

open Lib Lib.Fetch

/-! ### `bpf_validate` -/

/-- The sum of two `u_int`s. -/
def uadd (a b : ℕ) : ℕ := (a + b) % 4294967296

/-- The body of the loop: what is asked of the instruction `p` at `i`. -/
def bpfInsnOk (len i : ℕ) (p : BpfInsn) : Bool :=
  if BPF_CLASS p.code = BPF_LD ∨ BPF_CLASS p.code = BPF_LDX then
    if BPF_MODE p.code ∈ [BPF_IMM, BPF_ABS, BPF_IND, BPF_MSH] then true
    else if BPF_MODE p.code = BPF_MEM then p.k.toNat < BPF_MEMWORDS
    else BPF_MODE p.code = BPF_LEN
  else if BPF_CLASS p.code = BPF_ST ∨ BPF_CLASS p.code = BPF_STX then p.k.toNat < BPF_MEMWORDS
  else if BPF_CLASS p.code = BPF_ALU then
    if BPF_OP p.code ∈ [BPF_ADD, BPF_SUB, BPF_MUL, BPF_OR, BPF_AND, BPF_XOR, BPF_LSH, BPF_RSH,
        BPF_NEG] then true
    else if BPF_OP p.code ∈ [BPF_DIV, BPF_MOD] then !(BPF_SRC p.code = BPF_K ∧ p.k = 0)
    else false
  else if BPF_CLASS p.code = BPF_JMP then
    if BPF_OP p.code = BPF_JA then uadd (i + 1) p.k.toNat < len
    else if BPF_OP p.code ∈ [BPF_JEQ, BPF_JGT, BPF_JGE, BPF_JSET] then
      uadd (i + 1) p.jt.toNat < len ∧ uadd (i + 1) p.jf.toNat < len
    else false
  else BPF_CLASS p.code = BPF_RET ∨ BPF_CLASS p.code = BPF_MISC

/-- `bpf_validate(f, len)`, where `len` is `bf_len` as an `int`. -/
def bpfValidate (f : List BpfInsn) : Bool :=
  let len := (toI32 f.length).toNat
  if toI32 f.length < 1 then false
  else ((List.range len).all fun i => f[i]?.any (bpfInsnOk len i)) &&
    f[len - 1]?.any fun p => BPF_CLASS p.code = BPF_RET

/-! ### The cases of the switch -/

/-- What is asked of an instruction in one of the cases. -/
def BpfCase.Check (len i : ℕ) (p : BpfInsn) : BpfCase → Prop
  | ldMem | ldxMem | st | stx => p.k.toNat < BPF_MEMWORDS
  | alu .DIV src | alu .MOD src => src = .K → p.k ≠ 0
  | ja => uadd (i + 1) p.k.toNat < len
  | jump _ _ => uadd (i + 1) p.jt.toNat < len ∧ uadd (i + 1) p.jf.toNat < len
  | _ => True

theorem divisionOk_iff {k : BitVec 32} (src : BpfSrc) :
    (!decide (src.code = BPF_K ∧ k = 0)) = true ↔ (src = .K → k ≠ 0) := by
  cases src with
  | K => simp [BpfSrc.code]
  | X => exact iff_of_true rfl (fun h => by cases h)

theorem bpfInsnOk_iff {len i : ℕ} {p : BpfInsn} {c : BpfCase} (hcode : p.code = c.code) :
    bpfInsnOk len i p = true ↔ c.Check len i p := by
  rw [bpfInsnOk, hcode]
  cases c with
  | ldAbs size => cases size <;> exact iff_of_true rfl trivial
  | ldInd size => cases size <;> exact iff_of_true rfl trivial
  | jump op src => cases op <;> cases src <;> exact decide_eq_true_iff
  | alu op src =>
    have hdivision := @divisionOk_iff p.k src
    cases op with
    | DIV => cases src <;> exact hdivision
    | MOD => cases src <;> exact hdivision
    | _ => cases src <;> exact iff_of_true rfl trivial
  | ldMem => exact decide_eq_true_iff
  | ldxMem => exact decide_eq_true_iff
  | st => exact decide_eq_true_iff
  | stx => exact decide_eq_true_iff
  | ja => exact decide_eq_true_iff
  | _ => exact iff_of_true rfl trivial

/-! ### Loads -/

/-- The bytes of the packet are there. -/
def BpfPacket.Complete (pk : BpfPacket) : Prop := ∀ i < pk.buflen.toNat, (pk.p i).isSome

/-- A value, or `return 0`. -/
def Loads (r : Except BpfEnd (BitVec 32)) : Prop := (∃ v, r = .ok v) ∨ r = .error (.ret 0)

theorem loads_unless {c : Prop} [Decidable c] {r : Except BpfEnd (BitVec 32)} (h : ¬ c → Loads r) :
    Loads (if c then .error (.ret 0) else r) := by
  split
  · exact .inr rfl
  · exact h ‹_›

section Packet

variable {pk : BpfPacket} (hp : pk.Complete)
include hp

theorem loads_fetch {f : Fetch (BitVec 32)} (h : Reads pk.p f (· < pk.buflen.toNat)) :
    Loads (pk.fetch f) := by
  rw [BpfPacket.fetch, run_value (h.imp hp)]
  exact .inl ⟨_, rfl⟩

theorem loads_long {k : ℕ} (h : k + 4 ≤ pk.buflen.toNat) : Loads (pk.fetch (EXTRACT_LONG k)) := by
  apply loads_fetch hp
  simp only [EXTRACT_LONG, reads_bind hp, reads_u8, reads_pure, and_true]
  omega

theorem loads_short {k : ℕ} (h : k + 2 ≤ pk.buflen.toNat) : Loads (pk.fetch (EXTRACT_SHORT k)) := by
  apply loads_fetch hp
  simp only [EXTRACT_SHORT, reads_bind hp, reads_u8, reads_pure, and_true]
  omega

theorem loads_byte {k : ℕ} (h : k < pk.buflen.toNat) : Loads (pk.fetch (packetByte k)) := by
  apply loads_fetch hp
  simpa only [packetByte, reads_bind hp, reads_u8, reads_pure, and_true] using h

omit hp in
theorem loads_aux (tag : BpfAuxData → BitVec 16) : Loads (pk.aux tag) := by
  unfold BpfPacket.aux
  split
  · exact .inl ⟨_, rfl⟩
  · exact .inr rfl

theorem loads_loadAbs (k : BitVec 32) (size : BpfSize) : Loads (pk.loadAbs k size) := by
  cases size with
  | W => exact loads_unless fun h => loads_long hp (by bv_omega)
  | H => exact loads_unless fun h => loads_short hp (by bv_omega)
  | B =>
    rw [BpfPacket.loadAbs]
    split
    · exact loads_aux _
    split
    · exact loads_aux _
    exact loads_unless fun h => loads_byte hp (by bv_omega)

theorem loads_loadInd (X k : BitVec 32) (size : BpfSize) : Loads (pk.loadInd X k size) := by
  cases size with
  | W => exact loads_unless fun h => loads_long hp (by bv_omega)
  | H => exact loads_unless fun h => loads_short hp (by bv_omega)
  | B => exact loads_unless fun h => loads_byte hp (by bv_omega)

theorem loads_loadMsh (k : BitVec 32) : Loads (pk.loadMsh k) := by
  refine loads_unless fun h => loads_fetch hp ?_
  simp only [packetByte, reads_bind hp, reads_u8, reads_pure, and_true]
  bv_omega

end Packet

/-! ### A step -/

namespace BpfCase

/-- Where an instruction at `pc` in one of the cases goes on. -/
def next (p : BpfInsn) (pc : ℤ) : BpfCase → List ℤ
  | retK | retA => []
  | ja => [pc + 1 + p.k.toInt]
  | jump _ _ => [pc + 1 + p.jt.toNat, pc + 1 + p.jf.toNat]
  | _ => [pc + 1]

/-- What can be without a meaning at a valid instruction in one of the cases. -/
def Faults (p : BpfInsn) (why : BpfUndefined) : BpfCase → Prop
  | alu .LSH src | alu .RSH src => why = .shift ∧ (src = .K → 32 ≤ p.k.toNat)
  | ldMem | ldxMem => why = .uninitialised
  | _ => False

/-- Nothing can, by the instruction alone. -/
def plain (p : BpfInsn) : BpfCase → Bool
  | alu .LSH src | alu .RSH src => src = .K ∧ p.k.toNat < 32
  | ldMem | ldxMem => false
  | _ => true

/-- How a run can end there; only a return has a value other than `0`. -/
def Left (p : BpfInsn) (c : BpfCase) : BpfEnd → Prop
  | .ret value => value = 0 ∨ c = retA ∨ c = retK ∧ value = p.k
  | .aborted => False
  | .undefined why => c.Faults p why

variable {pk : BpfPacket} {p : BpfInsn} {s s' : BpfState} {c : BpfCase} {len i : ℕ}

theorem next_of_exec (h : c.exec pk p s = .ok s') : s'.pc ∈ c.next p s.pc := by
  have hmap : ∀ {r : Except BpfEnd (BitVec 32)} {f : BitVec 32 → BpfState},
      (∀ v, (f v).pc = s.pc + 1) → r.map f = .ok s' → s'.pc ∈ [s.pc + 1] := by
    intro r f hf hr
    cases r with
    | error e => cases hr
    | ok v =>
      obtain rfl := Except.ok.inj hr
      rw [hf]
      exact List.mem_singleton_self _
  have hstore : ∀ {k v : BitVec 32}, s.store k v = .ok s' → s'.pc ∈ [s.pc + 1] := by
    intro k v hr
    unfold BpfState.store at hr
    split at hr
    · obtain rfl := Except.ok.inj hr
      exact List.mem_singleton_self _
    · cases hr
  cases c with
  | retK => cases h
  | retA => cases h
  | ldAbs size => exact hmap (fun _ => rfl) h
  | ldInd size => exact hmap (fun _ => rfl) h
  | ldxMsh => exact hmap (fun _ => rfl) h
  | ldMem => exact hmap (fun _ => rfl) h
  | ldxMem => exact hmap (fun _ => rfl) h
  | alu op src => exact hmap (fun _ => rfl) h
  | st => exact hstore h
  | stx => exact hstore h
  | ja =>
    obtain rfl := Except.ok.inj h
    exact List.mem_singleton_self _
  | jump op src =>
    obtain rfl := Except.ok.inj h
    cases htest : op.test s.A (s.source p src) <;> simp [BpfState.jumpBy, next]
  | _ =>
    obtain rfl := Except.ok.inj h
    exact List.mem_singleton_self _

theorem not_faults_of_plain (h : c.plain p = true) (why : BpfUndefined) : ¬ c.Faults p why := by
  have hshift : ∀ src, decide (src = BpfSrc.K ∧ p.k.toNat < 32) = true →
      ¬ (why = .shift ∧ (src = .K → 32 ≤ p.k.toNat)) := by
    intro src h hfault
    obtain ⟨hsrc, hk⟩ := of_decide_eq_true h
    have hbig := hfault.2 hsrc
    omega
  cases c with
  | alu op src =>
    cases op with
    | LSH => exact hshift src h
    | RSH => exact hshift src h
    | _ => exact id
  | ldMem => cases h
  | ldxMem => cases h
  | _ => exact id

theorem class_eq_ret_iff : BPF_CLASS c.code = BPF_RET ↔ c = retK ∨ c = retA := by
  cases c with
  | ldAbs size => cases size <;> decide
  | ldInd size => cases size <;> decide
  | jump op src => cases op <;> cases src <;> decide
  | alu op src => cases op <;> cases src <;> decide
  | _ => decide

/-- A valid instruction goes on inside of the program. -/
theorem next_inside (hcheck : c.Check len i p) (hlen : len < 2147483648)
    (hi : BPF_CLASS c.code = BPF_RET ∨ i + 1 < len) :
    ∀ pc ∈ c.next p i, 0 ≤ pc ∧ pc < len := by
  rw [class_eq_ret_iff] at hi
  rcases hi with (rfl | rfl) | hi
  · simp [next]
  · simp [next]
  cases c with
  | retK => simp [next]
  | retA => simp [next]
  | ja =>
    have hk := BitVec.toInt_eq_toNat_cond p.k
    have hlt := p.k.isLt
    simp only [Check, uadd] at hcheck
    simp only [next, List.mem_singleton, forall_eq]
    omega
  | jump op src =>
    have hjt := p.jt.isLt
    have hjf := p.jf.isLt
    simp only [Check, uadd] at hcheck
    simp only [next, List.mem_cons, List.not_mem_nil, or_false, forall_eq_or_imp, forall_eq]
    omega
  | _ =>
    simp only [next, List.mem_singleton, forall_eq]
    omega

/-- Only a jump with a negative offset goes back. -/
theorem lt_of_next (hja : c = ja → 0 ≤ p.k.toInt) {pc : ℤ} : ∀ pc' ∈ c.next p pc, pc < pc' := by
  cases c with
  | retK => simp [next]
  | retA => simp [next]
  | ja =>
    have hk := hja rfl
    simp only [next, List.mem_singleton, forall_eq]
    omega
  | jump op src =>
    simp only [next, List.mem_cons, List.not_mem_nil, or_false, forall_eq_or_imp, forall_eq]
    omega
  | _ =>
    simp only [next, List.mem_singleton, forall_eq]
    omega

/-- What there is to go wrong in an operation. -/
theorem apply_error {op : BpfAlu} {src : BpfSrc} {A b : BitVec 32} {e : BpfEnd}
    (h : op.apply src A b = .error e) :
    ((op = .DIV ∨ op = .MOD) ∧ b = 0 ∧
        e = if src = .X then .ret 0 else .undefined .divisionByZero) ∨
      ((op = .LSH ∨ op = .RSH) ∧ 32 ≤ b.toNat ∧ e = .undefined .shift) := by
  cases op with
  | DIV =>
    rw [BpfAlu.apply] at h
    split at h
    · exact .inl ⟨.inl rfl, ‹_›, (Except.error.inj h).symm⟩
    · cases h
  | MOD =>
    rw [BpfAlu.apply] at h
    split at h
    · exact .inl ⟨.inr rfl, ‹_›, (Except.error.inj h).symm⟩
    · cases h
  | LSH =>
    rw [BpfAlu.apply] at h
    split at h
    · cases h
    · exact .inr ⟨.inl rfl, by omega, (Except.error.inj h).symm⟩
  | RSH =>
    rw [BpfAlu.apply] at h
    split at h
    · cases h
    · exact .inr ⟨.inr rfl, by omega, (Except.error.inj h).symm⟩
  | _ => cases h

theorem left_of_exec (hp : pk.Complete) (hcheck : c.Check len i p) {e : BpfEnd}
    (h : c.exec pk p s = .error e) : c.Left p e := by
  have hload : ∀ {r : Except BpfEnd (BitVec 32)} {f : BitVec 32 → BpfState}, Loads r →
      r.map f = .error e → c.Left p e := by
    rintro r f (⟨v, rfl⟩ | rfl) hr
    · cases hr
    · obtain rfl := Except.error.inj hr
      exact .inl rfl
  have hstore : ∀ {v : BitVec 32}, p.k.toNat < BPF_MEMWORDS → s.store p.k v ≠ .error e := by
    intro v hk hr
    rw [BpfState.store, if_pos hk] at hr
    cases hr
  have hmem : ∀ {f : BitVec 32 → BpfState}, p.k.toNat < BPF_MEMWORDS →
      (s.load p.k).map f = .error e → e = .undefined .uninitialised := by
    intro f hk hr
    rw [BpfState.load, if_pos hk] at hr
    split at hr
    · cases hr
    · exact (Except.error.inj hr).symm
  cases c with
  | retK =>
    obtain rfl := Except.error.inj h
    exact .inr (.inr ⟨rfl, rfl⟩)
  | retA =>
    obtain rfl := Except.error.inj h
    exact .inr (.inl rfl)
  | ldAbs size => exact hload (loads_loadAbs hp _ _) h
  | ldInd size => exact hload (loads_loadInd hp _ _ _) h
  | ldxMsh => exact hload (loads_loadMsh hp _) h
  | st => exact absurd h (hstore hcheck)
  | stx => exact absurd h (hstore hcheck)
  | ldMem =>
    obtain rfl := hmem hcheck h
    rfl
  | ldxMem =>
    obtain rfl := hmem hcheck h
    rfl
  | alu op src =>
    have happly : op.apply src s.A (s.source p src) = .error e := by
      change (op.apply src s.A (s.source p src)).map s.setA = .error e at h
      cases hr : op.apply src s.A (s.source p src) with
      | ok v =>
        rw [hr] at h
        cases h
      | error e' =>
        rw [hr] at h
        rw [Except.error.inj h]
    rcases apply_error happly with ⟨hop, hzero, rfl⟩ | ⟨hop, hshift, rfl⟩
    · cases src with
      | X => exact .inl rfl
      | K => rcases hop with rfl | rfl <;> exact absurd hzero (hcheck rfl)
    · have hconst : src = .K → 32 ≤ p.k.toNat := by
        rintro rfl
        exact hshift
      rcases hop with rfl | rfl <;> exact ⟨rfl, hconst⟩
  | _ => cases h

end BpfCase

/-! ### Runs -/

section Runs

variable {f : List BpfInsn} {pk : BpfPacket}

/-- What `bpf_validate` makes sure of. -/
theorem bpfValidate_iff : bpfValidate f = true ↔ 1 ≤ toI32 f.length ∧
    (∀ i < (toI32 f.length).toNat, ∃ p, f[i]? = some p ∧
      bpfInsnOk (toI32 f.length).toNat i p = true) ∧
    ∃ p, f[(toI32 f.length).toNat - 1]? = some p ∧ BPF_CLASS p.code = BPF_RET := by
  unfold bpfValidate
  dsimp only
  split
  · exact iff_of_false Bool.false_ne_true (fun h => by omega)
  · simp [Option.any_eq_true, Int.not_lt.1 ‹_›]

/-- `pc` is inside of the program. -/
def PcInside (f : List BpfInsn) (s : BpfState) : Prop := 0 ≤ s.pc ∧ s.pc < (toI32 f.length).toNat

/-- The instruction at `pc`, and what is known of it. -/
theorem insnAt_of_inside (hvalid : bpfValidate f = true) {s : BpfState} (hs : PcInside f s) :
    ∃ p i, s.pc = (i : ℕ) ∧ bpfInsnAt f s.pc = some p ∧ p ∈ f ∧
      bpfInsnOk (toI32 f.length).toNat i p = true ∧
      (BPF_CLASS p.code = BPF_RET ∨ i + 1 < (toI32 f.length).toNat) := by
  obtain ⟨h0, hlt⟩ := hs
  obtain ⟨-, hall, hlast⟩ := bpfValidate_iff.1 hvalid
  obtain ⟨p, hget, hok⟩ := hall s.pc.toNat (by omega)
  refine ⟨p, s.pc.toNat, by omega, ?_, List.mem_of_getElem? hget, hok, ?_⟩
  · rw [bpfInsnAt, if_pos h0, hget]
  · rcases Nat.lt_or_ge (s.pc.toNat + 1) (toI32 f.length).toNat with hi | hi
    · exact .inr hi
    · obtain ⟨q, hq, hclass⟩ := hlast
      have hsame : (toI32 f.length).toNat - 1 = s.pc.toNat := by omega
      rw [hsame, hget] at hq
      obtain rfl := Option.some.inj hq
      exact .inl hclass

theorem toI32_toNat_lt (n : ℕ) : (toI32 n).toNat < 2147483648 := by
  unfold toI32
  split <;> omega

/-- **A step of a valid program** stays inside of it, from an instruction to one it goes on at. -/
theorem step_inside (hvalid : bpfValidate f = true) {s s' : BpfState} (hs : PcInside f s)
    (hstep : bpfStep f pk s = .ok s') : PcInside f s' ∧
      ∃ p ∈ f, ∃ c, bpfCase p.code = some c ∧ s'.pc ∈ c.next p s.pc := by
  obtain ⟨p, i, hpc, hget, hmem, hok, hlast⟩ := insnAt_of_inside hvalid hs
  rw [bpfStep, hget] at hstep
  change bpfExec pk p s = .ok s' at hstep
  rw [bpfExec] at hstep
  cases hc : bpfCase p.code with
  | none =>
    rw [hc] at hstep
    cases hstep
  | some c =>
    rw [hc] at hstep
    have hcode := bpfCase_eq_some_iff.1 hc
    have hnext := BpfCase.next_of_exec hstep
    rw [hcode] at hlast
    have hinside := BpfCase.next_inside ((bpfInsnOk_iff hcode).1 hok) (toI32_toNat_lt _) hlast
    rw [← hpc] at hinside
    exact ⟨hinside s'.pc hnext, p, hmem, c, hc, hnext⟩

/-- How a run of a program can end: with a value, in `abort()` at an instruction outside of the
switch, or without a meaning at one that shifts too far or loads a word that has not been stored. -/
def EndsAt (f : List BpfInsn) (e : BpfEnd) : Prop :=
  ∃ p ∈ f, match bpfCase p.code with
    | some c => c.Left p e
    | none => e = .aborted

theorem step_ends (hvalid : bpfValidate f = true) (hp : pk.Complete) {s : BpfState}
    (hs : PcInside f s) {e : BpfEnd} (hstep : bpfStep f pk s = .error e) : EndsAt f e := by
  obtain ⟨p, i, -, hget, hmem, hok, -⟩ := insnAt_of_inside hvalid hs
  rw [bpfStep, hget] at hstep
  change bpfExec pk p s = .error e at hstep
  refine ⟨p, hmem, ?_⟩
  rw [bpfExec] at hstep
  cases hc : bpfCase p.code with
  | some c =>
    rw [hc] at hstep
    exact BpfCase.left_of_exec hp ((bpfInsnOk_iff (bpfCase_eq_some_iff.1 hc)).1 hok) hstep
  | none =>
    rw [hc] at hstep
    exact (Except.error.inj hstep).symm

theorem pcInside_start (hvalid : bpfValidate f = true) : PcInside f {} := by
  have hlen := (bpfValidate_iff.1 hvalid).1
  refine ⟨le_rfl, ?_⟩
  show (0 : ℤ) < _
  omega

theorem endsAt_of_ends (hvalid : bpfValidate f = true) (hp : pk.Complete) {e : BpfEnd}
    (hends : BpfEnds f pk e) : EndsAt f e :=
  hends.result (fun _ _ hs hstep => (step_inside hvalid hs hstep).1)
    (fun _ _ hs hstep => step_ends hvalid hp hs hstep) (pcInside_start hvalid)

theorem ret_of_endsAt (hplain : ∀ p ∈ f, (bpfCase p.code).any (BpfCase.plain p) = true)
    {e : BpfEnd} (h : EndsAt f e) : ∃ v, e = .ret v := by
  obtain ⟨p, hmem, hleft⟩ := h
  obtain ⟨c, hc, hnone⟩ := (Option.any_eq_true _ _).1 (hplain p hmem)
  rw [hc] at hleft
  cases e with
  | ret v => exact ⟨v, rfl⟩
  | aborted => exact hleft.elim
  | undefined why => exact absurd hleft (BpfCase.not_faults_of_plain hnone why)

/-- A valid program without backward jumps ends after as many steps as it has instructions. -/
theorem isSome_of_forward (hvalid : bpfValidate f = true)
    (hforward : ∀ p ∈ f, bpfCase p.code = some .ja → 0 ≤ p.k.toInt) (pk : BpfPacket) :
    (bpfFilterWithAuxData f.length (some f) pk).isSome := by
  have hlen : (toI32 f.length).toNat ≤ f.length := by
    unfold toI32
    split <;> omega
  have hgo : ∀ s s', PcInside f s → bpfStep f pk s = .ok s' → PcInside f s' ∧
      ((toI32 f.length).toNat - s'.pc - 1).toNat < ((toI32 f.length).toNat - s.pc - 1).toNat := by
    intro s s' hs hstep
    obtain ⟨hs', p, hmem, c, hc, hnext⟩ := step_inside hvalid hs hstep
    have hlt := BpfCase.lt_of_next (fun hja => hforward p hmem (hja ▸ hc)) _ hnext
    refine ⟨hs', ?_⟩
    obtain ⟨-, hinside⟩ := hs'
    omega
  have hstart := pcInside_start hvalid
  refine runFor_isSome (fun s : BpfState => ((toI32 f.length).toNat - s.pc - 1).toNat) hgo hstart ?_
  obtain ⟨h0, hlt⟩ := hstart
  omega

/-- **A valid program is safe on every packet**: a run of it ends with `0` or the value of a return
instruction, in `abort()` at an instruction that the switch has no case for, or without a meaning at
one that shifts by 32 or more or loads a word of `mem` before one is stored there; it never leaves the
program, the packet or `mem`, and never divides by zero.  Where its jumps go forward it does end,
after as many steps as it has instructions. -/
theorem validated_ends (hvalid : bpfValidate f = true) (hp : pk.Complete) :
    (∀ e, BpfEnds f pk e → EndsAt f e) ∧
      ((∀ p ∈ f, bpfCase p.code = some .ja → 0 ≤ p.k.toInt) →
        ∃ e, bpfFilterWithAuxData f.length (some f) pk = some e ∧ EndsAt f e) := by
  refine ⟨fun _ => endsAt_of_ends hvalid hp, fun hforward => ?_⟩
  obtain ⟨e, he⟩ := Option.isSome_iff_exists.1 (isSome_of_forward hvalid hforward pk)
  exact ⟨e, he, endsAt_of_ends hvalid hp (ends_of_runFor he)⟩

/-- **A valid program has a value on every packet**, after as many steps as it has instructions, where
its jumps go forward and its instructions are in the switch, shift by constants below 32 and do not
load from `mem`. -/
theorem validated_returns (hvalid : bpfValidate f = true)
    (hforward : ∀ p ∈ f, bpfCase p.code = some .ja → 0 ≤ p.k.toInt)
    (hplain : ∀ p ∈ f, (bpfCase p.code).any (BpfCase.plain p) = true)
    (hp : pk.Complete) : ∃ v, bpfFilterWithAuxData f.length (some f) pk = some (.ret v) := by
  obtain ⟨e, he⟩ := Option.isSome_iff_exists.1 (isSome_of_forward hvalid hforward pk)
  obtain ⟨v, rfl⟩ := ret_of_endsAt hplain (endsAt_of_ends hvalid hp (ends_of_runFor he))
  exact ⟨v, he⟩

end Runs

/-- The filter `ip and udp dst port 5500` on an Ethernet device. -/
def udpDstPort5500 : List BpfInsn :=
  [⟨0x28, 0, 0, 12⟩, ⟨0x15, 0, 8, 0x800⟩, ⟨0x30, 0, 0, 23⟩, ⟨0x15, 0, 6, 17⟩, ⟨0x28, 0, 0, 20⟩,
    ⟨0x45, 4, 0, 0x1fff⟩, ⟨0xb1, 0, 0, 14⟩, ⟨0x48, 0, 0, 16⟩, ⟨0x15, 0, 1, 5500⟩,
    ⟨0x06, 0, 0, 65535⟩, ⟨0x06, 0, 0, 0⟩]

/-- The packet that is captured whole. -/
def BpfPacket.ofList (l : List UInt8) : BpfPacket :=
  { p := Mem.ofList l, wirelen := BitVec.ofNat 32 l.length, buflen := BitVec.ofNat 32 l.length,
    auxData := none }

theorem BpfPacket.complete_ofList (l : List UInt8) : (BpfPacket.ofList l).Complete := by
  intro i hi
  rw [BpfPacket.ofList, BitVec.toNat_ofNat] at hi
  exact Mem.ofList_isSome.2 (lt_of_lt_of_le hi (Nat.mod_le _ _))

/-- A datagram to the port. -/
def datagramTo5500 : List UInt8 :=
  List.replicate 12 0 ++ ([8, 0, 0x45] ++ (List.replicate 8 0 ++ (17 :: (List.replicate 12 0 ++
    [0x15, 0x7c]))))

theorem validated_ends_5500 : bpfValidate udpDstPort5500 = true ∧
    EndsAt udpDstPort5500 (.ret 65535) ∧
    ∃ e, bpfFilterWithAuxData 11 (some udpDstPort5500) (.ofList datagramTo5500) = some e ∧
      EndsAt udpDstPort5500 e := by
  have hvalid : bpfValidate udpDstPort5500 = true := by decide
  have hends : BpfEnds udpDstPort5500 (.ofList datagramTo5500) (.ret 65535) :=
    @ends_of_runFor _ _ _ 11 _ _ rfl
  obtain ⟨hsafe, hforward⟩ := validated_ends hvalid (BpfPacket.complete_ofList datagramTo5500)
  exact ⟨hvalid, hsafe _ hends, hforward (by decide)⟩

/-- A valid program that jumps back for ever. -/
theorem validated_loop (pk : BpfPacket) (fuel : ℕ) :
    bpfValidate [⟨0x05, 0, 0, 0xffffffff⟩, ⟨0x06, 0, 0, 0⟩] = true ∧
      bpfFilterWithAuxData fuel (some [⟨0x05, 0, 0, 0xffffffff⟩, ⟨0x06, 0, 0, 0⟩]) pk = none := by
  refine ⟨by decide, ?_⟩
  induction fuel with
  | zero => rfl
  | succ fuel ih => exact ih

/-- A valid program that `abort`s: `bpf_validate` does not look at the size of a load. -/
example : bpfValidate [⟨0x08, 0, 0, 0⟩, ⟨0x06, 0, 0, 0⟩] = true ∧
    bpfFilterWithAuxData 2 (some [⟨0x08, 0, 0, 0⟩, ⟨0x06, 0, 0, 0⟩]) (.ofList []) =
      some .aborted := by decide

end LocTag
