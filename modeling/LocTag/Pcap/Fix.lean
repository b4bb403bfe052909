import LocTag.Pcap.Validate

/-!
# Filters for the kernel

`fix_program` of `pcap-linux.c` makes the program for the socket of the one `pcap_setfilter` is
given: outside of cooked mode it only makes the lengths to be returned `MAXIMUM_SNAPLEN`, so that a
packet is cut by `recvmsg` and not by the filter.

`bpfFilter_raised` says that this changes nothing else, and `bpfFilter_auxData` that the tags of a
packet make no difference to a program that does not load them.
-/

namespace LocTag

open Lib Lib.Fetch

/-! ### `fix_program` -/

def SLL_HDR_LEN : BitVec 32 := 16
def MAXIMUM_SNAPLEN : BitVec 32 := 262144

/-- `fix_offset(p)`, `none` for `-1`. -/
def fixOffset (p : BpfInsn) : Option BpfInsn :=
  if SLL_HDR_LEN ≤ p.k then some { p with k := p.k - SLL_HDR_LEN }
  else if p.k = 0 then some { p with k := SKF_AD_OFF + SKF_AD_PKTTYPE }
  else if p.k = 14 then some { p with k := SKF_AD_OFF + SKF_AD_PROTOCOL }
  else if 0 < p.k.toInt then none
  else some p

/-- The body of the loop of `fix_program`. -/
def fixInsn (cooked isMmapped : Bool) (p : BpfInsn) : Option BpfInsn :=
  if BPF_CLASS p.code = BPF_RET then
    if !isMmapped ∧ BPF_MODE p.code = BPF_K ∧ p.k ≠ 0 then some { p with k := MAXIMUM_SNAPLEN }
    else some p
  else if BPF_CLASS p.code = BPF_LD ∨ BPF_CLASS p.code = BPF_LDX then
    if (BPF_MODE p.code = BPF_ABS ∨ BPF_MODE p.code = BPF_IND ∨ BPF_MODE p.code = BPF_MSH) ∧
        cooked then fixOffset p
    else some p
  else some p

/-- `fix_program(handle, &fcode, is_mmapped)`, `none` where it returns `0`. -/
def fixProgram (cooked isMmapped : Bool) (f : List BpfInsn) : Option (List BpfInsn) :=
  f.mapM (fixInsn cooked isMmapped)

/-! ### Outside of cooked mode -/

/-- A return instruction with a length other than `0` gets the largest one. -/
def BpfInsn.raised (p : BpfInsn) : BpfInsn :=
  if BPF_CLASS p.code = BPF_RET ∧ BPF_MODE p.code = BPF_K ∧ p.k ≠ 0 then
    { p with k := MAXIMUM_SNAPLEN }
  else p

/-- The end with that length. -/
def BpfEnd.raised : BpfEnd → BpfEnd
  | ret value => ret (if value = 0 then 0 else MAXIMUM_SNAPLEN)
  | e => e

theorem fixProgram_eq (f : List BpfInsn) :
    fixProgram false false f = some (f.map BpfInsn.raised) := by
  have hinsn : fixInsn false false = fun p => some p.raised := by
    funext p
    unfold fixInsn BpfInsn.raised
    split
    · simp only [*, Bool.not_false, true_and]
      split <;> rfl
    · simp [*]
  rw [fixProgram, hinsn]
  induction f with
  | nil => rfl
  | cons p f ih =>
    rw [List.mapM_cons, ih]
    rfl

@[simp] theorem BpfInsn.raised_code (p : BpfInsn) : p.raised.code = p.code := by
  unfold BpfInsn.raised
  split <;> rfl

theorem bpfInsnAt_map (g : BpfInsn → BpfInsn) (f : List BpfInsn) (pc : ℤ) :
    bpfInsnAt (f.map g) pc = (bpfInsnAt f pc).map g := by
  unfold bpfInsnAt
  split
  · exact List.getElem?_map
  · rfl

/-! ### Runs -/

section Runs

variable {f : List BpfInsn} {pk : BpfPacket}

/-- Only a return instruction is not the same. -/
theorem BpfInsn.raised_eq {p : BpfInsn} {c : BpfCase} (hcode : p.code = c.code)
    (hK : c ≠ .retK) (hA : c ≠ .retA) : p.raised = p := by
  rw [BpfInsn.raised, if_neg]
  rw [hcode, BpfCase.class_eq_ret_iff]
  exact fun h => h.1.elim hK hA

theorem BpfInsn.raised_retK {p : BpfInsn} (hcode : p.code = BpfCase.retK.code) :
    p.raised.k = if p.k = 0 then 0 else MAXIMUM_SNAPLEN := by
  rw [BpfInsn.raised, hcode]
  by_cases hk : p.k = 0
  · rw [if_pos hk, if_neg fun h => h.2.2 hk, hk]
  · rw [if_neg hk, if_pos ⟨by decide, by decide, hk⟩]

/-- **A step of the fixed program** is the same, or a return with the largest length. -/
theorem step_raised (hvalid : bpfValidate f = true) (hp : pk.Complete)
    (hconst : ∀ p ∈ f, bpfCase p.code ≠ some .retA) {s : BpfState} (hs : PcInside f s) :
    StepsMatch (fun s t => s = t ∧ PcInside f s) (fun e e' => e' = e.raised) (bpfStep f pk s)
      (bpfStep (f.map BpfInsn.raised) pk s) := by
  obtain ⟨p, i, -, hget, hmem, hok, -⟩ := insnAt_of_inside hvalid hs
  have hinside := fun s' => @step_inside f pk hvalid s s' hs
  have hstep : bpfStep f pk s = bpfExec pk p s := by rw [bpfStep, hget]
  have hstep' : bpfStep (f.map BpfInsn.raised) pk s = bpfExec pk p.raised s := by
    rw [bpfStep, bpfInsnAt_map, hget]
    rfl
  rw [hstep] at hinside ⊢
  rw [hstep']
  cases hc : bpfCase p.code with
  | none =>
    rw [bpfExec, bpfExec, BpfInsn.raised_code, hc]
    rfl
  | some c =>
    have hcode := bpfCase_eq_some_iff.1 hc
    have hA : c ≠ .retA := by
      rintro rfl
      exact hconst p hmem hc
    have hexec : ∀ q : BpfInsn, q.code = p.code → bpfExec pk q s = c.exec pk q s := by
      intro q hq
      rw [bpfExec, hq, hc]
    rw [hexec p rfl] at hinside ⊢
    rw [hexec p.raised p.raised_code]
    by_cases hK : c = .retK
    · subst hK
      exact congrArg BpfEnd.ret (BpfInsn.raised_retK hcode)
    · rw [BpfInsn.raised_eq hcode hK hA]
      cases hr : c.exec pk p s with
      | ok s' => exact ⟨rfl, (hinside s' hr).1⟩
      | error e =>
        have hleft := BpfCase.left_of_exec hp ((bpfInsnOk_iff hcode).1 hok) hr
        cases e with
        | ret v =>
          have hv : v = 0 := hleft.elim id fun h => h.elim (absurd · hA) (absurd ·.1 hK)
          rw [hv]
          rfl
        | aborted => rfl
        | undefined why => rfl

/-- **The fixed program has the same results**, up to the lengths. -/
theorem bpfFilter_raised (hvalid : bpfValidate f = true) (hp : pk.Complete)
    (hconst : ∀ p ∈ f, bpfCase p.code ≠ some .retA) (fuel : ℕ) :
    bpfFilterWithAuxData fuel (some (f.map BpfInsn.raised)) pk =
      (bpfFilterWithAuxData fuel (some f) pk).map BpfEnd.raised := by
  have hmatch : ∀ s t, s = t ∧ PcInside f s → StepsMatch (fun s t => s = t ∧ PcInside f s)
      (fun e e' => e' = e.raised) (bpfStep f pk s) (bpfStep (f.map BpfInsn.raised) pk t) := by
    rintro s t ⟨rfl, hs⟩
    exact step_raised hvalid hp hconst hs
  have hrel := runFor_match hmatch fuel ⟨rfl, pcInside_start hvalid⟩
  unfold bpfFilterWithAuxData
  dsimp only
  generalize runFor (bpfStep f pk) fuel {} = r at hrel ⊢
  generalize runFor (bpfStep (f.map BpfInsn.raised) pk) fuel {} = r' at hrel ⊢
  cases hrel with
  | none => rfl
  | some h => exact congrArg some h

/-- The program does not load the tags of `aux_data`. -/
def NoTags (f : List BpfInsn) : Prop :=
  ∀ p ∈ f, bpfCase p.code = some (.ldAbs .B) → p.k ≠ SKF_AD_OFF + SKF_AD_VLAN_TAG ∧
    p.k ≠ SKF_AD_OFF + SKF_AD_VLAN_TAG_PRESENT

/-- **A program that does not load the tags** is the same with any of them. -/
theorem bpfFilter_auxData (h : NoTags f) (aux : Option BpfAuxData) (fuel : ℕ) :
    bpfFilterWithAuxData fuel (some f) { pk with auxData := aux } =
      bpfFilterWithAuxData fuel (some f) pk := by
  have hstep : bpfStep f { pk with auxData := aux } = bpfStep f pk := by
    funext s
    rw [bpfStep, bpfStep]
    cases hget : bpfInsnAt f s.pc with
    | none => rfl
    | some p =>
      have hmem : p ∈ f := by
        unfold bpfInsnAt at hget
        split at hget
        · exact List.mem_of_getElem? hget
        · cases hget
      change bpfExec _ p s = bpfExec pk p s
      rw [bpfExec, bpfExec]
      cases hc : bpfCase p.code with
      | none => rfl
      | some c =>
        cases c with
        | ldAbs size =>
          cases size with
          | B =>
            obtain ⟨htag, hpresent⟩ := h p hmem hc
            have hload : ∀ pk : BpfPacket, pk.loadAbs p.k .B =
                if pk.buflen ≤ p.k then .error (.ret 0) else pk.fetch (packetByte p.k.toNat) := by
              intro pk
              rw [BpfPacket.loadAbs, if_neg htag, if_neg hpresent]
            show (BpfPacket.loadAbs _ p.k .B).map s.setA = (pk.loadAbs p.k .B).map s.setA
            rw [hload, hload]
            rfl
          | _ => rfl
        | _ => rfl
  rw [bpfFilterWithAuxData, bpfFilterWithAuxData, hstep]

end Runs

end LocTag
