import NestedMachine.Instruction.Encoding
import NestedMachine.Proofs.Instruction.Codec
import NestedMachine.Proofs.Machine.Reference
import NestedMachine.Proofs.Machine.Settled

/-!
# Harts simulate the reference machine

A hart depicts one of the reference machine by its registers and its program counter, and its memory
depicts a flat one by its layout and its bytes (`ReferenceHart.of`, `FlatMemory.of`).  Carried out
from there, every instruction meets the same instruction of the reference machine
(`Instruction.meets_execute`): it answers alike or faults alike, and has mapped the pages that it
needs; or the pool has run dry, because it cannot back all of them.  A load or store is the only
instruction that touches memory, and it is the last thing that a step does, so a step that faults
has at most mapped the page of its program counter (`Hart.meets_step`).

So the frames that are left decide before a step is taken whether it is one of the reference machine
(`Hart.follows_reference`), and a run takes the steps of the reference machine as long as the pool
can back them (`Hart.run_simulates`).  All this holds of every context that a machine ever has
(`Interpreter.step_simulates`).
-/

namespace NestedMachine

set_option autoImplicit false

open Memory (Shows Meets)

variable {around : Surroundings} {memory : Memory} {flat : FlatMemory} {hart : Hart}
  {rd rs1 rs2 : Nat}

/-! ## What a hart depicts -/

theorem Registers.toBitVec_read_zero (registers : Registers) :
    (registers.read (0 : Fin 32)).toBitVec = 0 := rfl

/-- The registers as the reference machine has them. -/
def RegisterFile.of (registers : Registers) : RegisterFile :=
  ⟨fun register => (registers.read register).toBitVec, registers.toBitVec_read_zero⟩

/-- A hart as the reference machine has it. -/
def ReferenceHart.of (hart : Hart) : ReferenceHart := ⟨.of hart.registers, hart.pc.toBitVec⟩

/-- The flat memory that a memory shows. -/
def FlatMemory.of (memory : Memory) : FlatMemory := ⟨memory.space.layout, memory.byteAt⟩

/-- An integer is cut to a word alike. -/
theorem toBitVec_ofInt (value : Int) : (UInt64.ofInt value).toBitVec = .ofInt 64 value := by
  apply BitVec.eq_of_toNat_eq
  have small : value % 2 ^ 64 < 2 ^ 64 := Int.emod_lt_of_pos value (by decide)
  rw [BitVec.toNat_ofInt, UInt64.ofInt, UInt64.toNat_toBitVec, UInt64.toNat_ofNat']
  exact Nat.mod_eq_of_lt (by omega)

theorem RegisterFile.of_write {registers : Registers} (rd_lt : rd < Register.count)
    (value : UInt64) : RegisterFile.of (registers.write rd value) =
      (RegisterFile.of registers).set (Fin.ofNat 32 rd) value.toBitVec := by
  ext1
  funext register
  show ((registers.write rd value).read register).toBitVec = if _ then _ else _
  have same : register = Fin.ofNat 32 rd ↔ (register : Nat) = rd := by
    rw [Fin.ext_iff, Fin.val_ofNat, Nat.mod_eq_of_lt (show rd < 32 from rd_lt)]
  have zero : register = 0 ↔ (register : Nat) = 0 := Fin.ext_iff
  rw [Registers.read_write rd_lt, apply_ite UInt64.toBitVec]
  exact if_congr (and_congr same.symm (not_congr zero.symm)) rfl rfl

namespace ReferenceHart

theorem read_of (rs1_lt : rs1 < Register.count) :
    (ReferenceHart.of hart).read rs1 = (hart.registers.read rs1).toBitVec :=
  congrArg (fun register => (hart.registers.read register).toBitVec) (Nat.mod_eq_of_lt rs1_lt)

theorem target_of (offset : Int) :
    (ReferenceHart.of hart).target offset = (hart.target offset).toBitVec := by
  rw [target, Hart.target, UInt64.toBitVec_add, toBitVec_ofInt]
  rfl

theorem address_of (rs1_lt : rs1 < Register.count) (offset : Int) :
    (ReferenceHart.of hart).address rs1 offset =
      (hart.registers.read rs1 + UInt64.ofInt offset).toBitVec := by
  rw [address, read_of rs1_lt, UInt64.toBitVec_add, toBitVec_ofInt]

theorem moved_of (rd_lt : rd < Register.count) (value pc : UInt64) :
    (ReferenceHart.of hart).moved rd value.toBitVec pc.toBitVec =
      .of ⟨hart.registers.write rd value, pc⟩ :=
  congrArg (ReferenceHart.mk · pc.toBitVec) (RegisterFile.of_write rd_lt value).symm

end ReferenceHart

/-! ## Instructions -/

/-- What a step leaves to go on with is what the reference machine has. -/
def Depicts (found : Hart × Flow) (expected : ReferenceHart × Flow) : Prop :=
  (ReferenceHart.of found.1, found.2) = expected

theorem depicts_advance (rd_lt : rd < Register.count) {value : UInt64} {expected : BitVec 64}
    (same : value.toBitVec = expected) :
    Depicts (hart.advance rd value, .next) ((ReferenceHart.of hart).finish rd expected) := by
  subst same
  exact congrArg (Prod.mk · Flow.next) (ReferenceHart.moved_of rd_lt value hart.following).symm

/-- The address of a load or store is asked once more whether it is aligned, so it does not matter
that it has been asked before. -/
theorem effectiveAddress_bind {α : Type} {base : UInt64} {offset : Int}
    {next : UInt64 → MemoryAction α}
    (asks : ∀ address memory, isAligned address.toNat wordSize = false →
      next address memory = .error (.misaligned address.toNat) memory) :
    (orFault (effectiveAddress base offset) >>= next) = next (base + UInt64.ofInt offset) := by
  funext memory
  unfold effectiveAddress
  dsimp only
  split
  · rfl
  · rename_i odd
    exact (asks _ _ (Bool.eq_false_iff.mpr odd)).symm

theorem requireAligned_of_odd {address size : Nat} (odd : isAligned address size = false)
    (memory : Memory) :
    Memory.requireAligned address size memory = .error (.misaligned address) memory := by
  rw [Memory.requireAligned, odd]
  rfl

theorem execute_ld (rd rs1 : Nat) (imm : Int) : Instruction.execute hart (.ld rd rs1 imm) = (do
    let value ← Memory.load (hart.registers.read rs1 + UInt64.ofInt imm).toNat
    return (hart.advance rd value, .next)) :=
  effectiveAddress_bind fun _ memory odd =>
    bind_of_error (bind_of_error (requireAligned_of_odd odd memory) _) _

theorem execute_sd (rs1 rs2 : Nat) (imm : Int) : Instruction.execute hart (.sd rs1 rs2 imm) = (do
    Memory.store (hart.registers.read rs1 + UInt64.ofInt imm).toNat (hart.registers.read rs2)
    return ({ hart with pc := hart.following }, .next)) :=
  effectiveAddress_bind fun _ memory odd =>
    bind_of_error (bind_of_error (requireAligned_of_odd odd memory) _) _

section Combination

variable (compute : UInt64 → UInt64 → UInt64) {operation : BitVec 64 → BitVec 64 → BitVec 64}

theorem depicts_combine (rd_lt : rd < Register.count) (rs1_lt : rs1 < Register.count)
    (rs2_lt : rs2 < Register.count)
    (same : ∀ left right, (compute left right).toBitVec =
      operation left.toBitVec right.toBitVec) :
    Depicts (hart.advance rd (compute (hart.registers.read rs1) (hart.registers.read rs2)), .next)
      ((ReferenceHart.of hart).combine rd rs1 rs2 operation) := by
  rw [ReferenceHart.combine, ReferenceHart.read_of rs1_lt, ReferenceHart.read_of rs2_lt]
  exact depicts_advance rd_lt (same _ _)

/-- A division by zero faults on both sides. -/
theorem meets_divide (shows : Shows around memory flat) {division : Arithmetic}
    (rd_lt : rd < Register.count) (rs1_lt : rs1 < Register.count) (rs2_lt : rs2 < Register.count)
    (divides : ∀ left right, division.apply left right =
      if right = 0 then .error .divisionByZero else .ok (compute left right))
    (same : ∀ left right, (compute left right).toBitVec =
      operation left.toBitVec right.toBitVec) :
    Meets around memory flat ∅ Depicts
      (Instruction.executeArithmetic division hart rd rs1 rs2 memory)
      ((ReferenceHart.of hart).divide rd rs1 rs2 operation flat) := by
  unfold Instruction.executeArithmetic ReferenceHart.divide
  rw [divides, ReferenceHart.read_of rs2_lt]
  have zero : (hart.registers.read rs2).toBitVec = 0 ↔ hart.registers.read rs2 = 0 :=
    UInt64.toBitVec_inj (b := 0)
  by_cases vanishes : hart.registers.read rs2 = 0
  · rw [if_pos vanishes, if_pos (zero.mpr vanishes)]
    exact .refused shows
  · rw [if_neg vanishes, if_neg (mt zero.mp vanishes)]
    exact .answered shows (depicts_combine compute rd_lt rs1_lt rs2_lt same)

end Combination

open ReferenceHart in
/-- **An instruction is carried out as on the reference machine.** -/
theorem Instruction.meets_execute (shows : Shows around memory flat) {instruction : Instruction}
    (named : instruction.Named) :
    Meets around memory flat ((ReferenceHart.of hart).executionDemands flat instruction) Depicts
      (instruction.execute hart memory) ((ReferenceHart.of hart).execute instruction flat) := by
  cases instruction with
  | lui rd imm =>
      exact .answered shows (depicts_advance (named.rd rd rfl) (toBitVec_ofInt imm))
  | addi rd rs1 imm =>
      have sum := (address_of (named.rs1 rs1 rfl) imm : (of hart).address rs1 imm = _)
      exact .answered shows (depicts_advance (named.rd rd rfl) sum.symm)
  | add rd rs1 rs2 =>
      exact .answered shows <| depicts_combine (· + ·) (named.rd rd rfl) (named.rs1 rs1 rfl)
        (named.rs2 rs2 rfl) fun _ _ => UInt64.toBitVec_add
  | sub rd rs1 rs2 =>
      exact .answered shows <| depicts_combine (· - ·) (named.rd rd rfl) (named.rs1 rs1 rfl)
        (named.rs2 rs2 rfl) fun _ _ => UInt64.toBitVec_sub
  | mul rd rs1 rs2 =>
      exact .answered shows <| depicts_combine (· * ·) (named.rd rd rfl) (named.rs1 rs1 rfl)
        (named.rs2 rs2 rfl) fun _ _ => UInt64.toBitVec_mul
  | divu rd rs1 rs2 =>
      exact meets_divide (· / ·) shows (named.rd rd rfl) (named.rs1 rs1 rfl) (named.rs2 rs2 rfl)
        (fun _ _ => rfl) fun _ _ => UInt64.toBitVec_div
  | remu rd rs1 rs2 =>
      exact meets_divide (· % ·) shows (named.rd rd rfl) (named.rs1 rs1 rfl) (named.rs2 rs2 rfl)
        (fun _ _ => rfl) fun _ _ => UInt64.toBitVec_mod
  | sltu rd rs1 rs2 =>
      refine .answered shows <| depicts_combine (fun left right => if left < right then 1 else 0)
        (named.rd rd rfl) (named.rs1 rs1 rfl) (named.rs2 rs2 rfl) fun left right => ?_
      exact apply_ite UInt64.toBitVec (left < right) 1 0
  | ld rd rs1 imm =>
      rw [execute_ld, ReferenceHart.execute, executionDemands, address_of (named.rs1 rs1 rfl)]
      exact (shows.meets_load _).map fun _ _ same =>
        depicts_advance (named.rd rd rfl) (congrArg UInt64.toBitVec same)
  | sd rs1 rs2 imm =>
      rw [execute_sd, ReferenceHart.execute, executionDemands, address_of (named.rs1 rs1 rfl),
        read_of (named.rs2 rs2 rfl)]
      exact (shows.meets_store _ _).map fun _ _ _ => rfl
  | beq rs1 rs2 imm =>
      refine .answered shows (congrArg (fun pc => (ReferenceHart.mk _ pc, Flow.next)) ?_)
      rw [read_of (named.rs1 rs1 rfl), read_of (named.rs2 rs2 rfl), target_of,
        apply_ite UInt64.toBitVec]
      exact if_congr UInt64.toBitVec_inj.symm rfl rfl
  | jal rd imm =>
      refine .answered shows ?_
      rw [target_of]
      exact congrArg (Prod.mk · Flow.next) (moved_of (named.rd rd rfl) _ _).symm
  | jalr rd rs1 imm =>
      refine .answered shows ?_
      rw [address_of (named.rs1 rs1 rfl)]
      exact congrArg (Prod.mk · Flow.next) (moved_of (named.rd rd rfl) _ _).symm
  | ecall => exact .answered shows rfl

/-! ## Steps -/

/-- Fetching changes nothing. -/
theorem FlatMemory.finalState_fetch (address : Nat) (memory : FlatMemory) :
    finalState (fetch address memory) = memory := by
  rw [fetch, requireAligned]
  split
  · have asked := requireGranted_apply .fetch address Instruction.size memory
    show finalState ((requireGranted .fetch address Instruction.size >>= _) memory) = memory
    by_cases granted : memory.layout.grantsAll .fetch address Instruction.size = true
    · rw [if_pos granted] at asked
      rw [bind_of_ok asked]
      rfl
    · rw [if_neg granted] at asked
      rw [bind_of_error asked]
      rfl
  · rfl

theorem Memory.Shows.jotted (shows : Shows around memory flat) (journal : Journal) :
    Shows around { memory with journal } flat :=
  ⟨⟨shows.sound.consistent, shows.sound.taken, shows.sound.capacity, shows.sound.contents,
    shows.sound.permission, shows.sound.layout⟩, shows.layout, shows.whole, shows.bytes⟩

namespace Hart

theorem meets_fetch (shows : Shows around memory flat) (tracing : Bool) (hart : Hart)
    {address : Nat} (here : hart.pc.toNat = address) :
    Meets around memory flat (FlatMemory.needed address (FlatMemory.fetch address flat)) Eq
      (hart.fetch tracing memory) (FlatMemory.fetch address flat) := by
  have fetched := shows.meets_fetch address
  rw [fetch, bind_apply, EStateM.bind, here]
  generalize Memory.fetch address memory = result at fetched
  generalize FlatMemory.fetch address flat = expected at fetched
  cases fetched with
  | answer same shows' domain =>
      cases tracing with
      | true => exact .answer same (shows'.jotted _) domain
      | false => exact .answer same shows' domain
  | failure shows' domain => exact .failure shows' domain
  | dry shows' short => exact .dry shows' short

/-- **A step is taken as on the reference machine.** -/
theorem meets_step (shows : Shows around memory flat) (tracing : Bool) (hart : Hart) :
    Meets around memory flat ((ReferenceHart.of hart).demands flat) Depicts
      (hart.step tracing memory) ((ReferenceHart.of hart).step flat) := by
  have here : hart.pc.toNat = (ReferenceHart.of hart).pc.toNat := rfl
  have fetched := hart.meets_fetch shows tracing here
  have same := FlatMemory.finalState_fetch (ReferenceHart.of hart).pc.toNat flat
  cases expected : FlatMemory.fetch (ReferenceHart.of hart).pc.toNat flat with
  | error fault flat' =>
      rw [expected] at fetched same
      obtain rfl : flat' = flat := same
      rw [ReferenceHart.demands_of_refused expected, ReferenceHart.step, bind_of_error expected]
      exact fetched.bind_failure
  | ok word flat' =>
      rw [expected] at fetched same
      obtain rfl : flat' = flat := same
      rw [ReferenceHart.demands_of_fetched expected, ReferenceHart.step, bind_of_ok expected]
      refine fetched.bind_answer fun found middle alike shows' => ?_
      subst alike
      cases decoded : found.instruction? with
      | none => exact .refused shows'
      | some instruction =>
          have named := (Instruction.instruction?_eq_some_iff.mp decoded).1
          exact Instruction.meets_execute shows' named

end Hart

/-- A run leaves what a run of the reference machine leaves. -/
structure Hart.RunResult.Depicts (around : Surroundings) (result : Hart.RunResult)
    (expected : ReferenceHart.Run) : Prop where
  hart : ReferenceHart.of result.hart = expected.hart
  retired : result.retired = expected.retired
  shows : Shows around result.memory expected.memory

/-- **A run takes the steps of the reference machine**, all of them or as many as the pool can
back. -/
theorem Hart.run_simulates (shows : Shows around memory flat) (tracing : Bool) (quantum : Nat)
    (hart : Hart) (retired : Nat) :
    let result := hart.run tracing quantum retired memory
    ∃ steps, result.Depicts around ((ReferenceHart.of hart).run steps retired flat) ∧
      (result.ending = .outOfFrames ∨ steps = quantum ∧
        result.ending = ((ReferenceHart.of hart).run steps retired flat).ending) := by
  induction quantum generalizing hart retired memory flat with
  | zero => exact ⟨0, ⟨rfl, rfl, shows⟩, .inr ⟨rfl, rfl⟩⟩
  | succ quantum ih =>
      have meets := hart.meets_step shows tracing
      rw [run]
      generalize hart.step tracing memory = result at meets
      generalize expected : (ReferenceHart.of hart).step flat = outcome at meets
      cases meets with
      | @answer found _ after flat' alike shows' domain =>
          obtain ⟨next, flow⟩ := found
          obtain rfl := alike
          cases flow with
          | next =>
              obtain ⟨steps, depicted, ending⟩ := ih shows' next (retired + 1)
              refine ⟨steps + 1, ?_⟩
              rw [ReferenceHart.run, expected]
              exact ⟨depicted, ending.imp_right fun same => ⟨congrArg (· + 1) same.1, same.2⟩⟩
          | environmentCall =>
              refine ⟨quantum + 1, ?_⟩
              rw [ReferenceHart.run, expected]
              exact ⟨⟨rfl, rfl, shows'⟩, .inr ⟨rfl, rfl⟩⟩
      | failure shows' domain =>
          refine ⟨quantum + 1, ?_⟩
          rw [ReferenceHart.run, expected]
          exact ⟨⟨rfl, rfl, shows'⟩, .inr ⟨rfl, rfl⟩⟩
      | dry shows' short => exact ⟨0, ⟨rfl, rfl, shows'⟩, .inl rfl⟩

/-! ## Steps that the pool can back -/

theorem Memory.Shows.of_eq (shows : Shows around memory flat) : FlatMemory.of memory = flat := by
  obtain ⟨layout, bytes⟩ := flat
  exact congr (congrArg FlatMemory.mk shows.layout) (funext shows.bytes)

/-- Pages are more than the pool has frames for if they do not fit into it with all that is
mapped. -/
theorem Memory.Sound.available_lt_iff (sound : memory.Sound around) (pages : Finset Nat) :
    memory.pool.available < (pages \ memory.space.table.domain).card ↔
      around.capacity < (memory.space.table.domain ∪ pages).card + around.frames.card := by
  have room := sound.card_le
  have counted := sound.available_eq
  have joined := Finset.card_sdiff_add_card pages memory.space.table.domain
  rw [Finset.union_comm] at joined
  omega

namespace Hart

/-- A step faults, and nothing can be seen of it: a run ends there with the same hart and with no
instruction carried out, the layout and every byte are as before, and pages keep their frames. -/
def Faults (noting : Bool) (hart : Hart) (memory : Memory) (fault : Fault) : Prop :=
  ∃ after, hart.step noting memory = .error fault after ∧
    (∀ retired, hart.run noting 1 retired memory =
      ⟨hart, retired, after, endingOf fault hart.pc⟩) ∧
    FlatMemory.of after = .of memory ∧ memory.EntriesKept after

/-- How a run of one instruction ends that is carried out. -/
def endingAfter : Flow → Ending
  | .next => .trap .timerInterrupt
  | .environmentCall => .trap .environmentCall

/-- A step does what the reference machine does: it leaves what that leaves, and a run counts one
instruction more; or it faults where that faults. -/
def Follows (noting : Bool) (hart : Hart) (memory : Memory) :
    EStateM.Result Fault FlatMemory (ReferenceHart × Flow) → Prop
  | .ok (expected, flow) seen =>
      ∃ next after, hart.step noting memory = .ok (next, flow) after ∧
        (∀ retired, hart.run noting 1 retired memory =
          ⟨next, retired + 1, after, endingAfter flow⟩) ∧
        ReferenceHart.of next = expected ∧ FlatMemory.of after = seen ∧ memory.EntriesKept after
  | .error fault _ => hart.Faults noting memory fault

theorem run_of_error {noting : Bool} {fault : Fault} {after : Memory}
    (stepped : hart.step noting memory = .error fault after) (quantum retired : Nat) :
    hart.run noting (quantum + 1) retired memory =
      ⟨hart, retired, after, endingOf fault hart.pc⟩ := by
  rw [run, stepped]

theorem run_one_of_ok {noting : Bool} {next : Hart} {flow : Flow} {after : Memory}
    (stepped : hart.step noting memory = .ok (next, flow) after) (retired : Nat) :
    hart.run noting 1 retired memory = ⟨next, retired + 1, after, endingAfter flow⟩ := by
  rw [run, stepped]
  cases flow <;> rfl

/-- **A step that the pool can back is one of the reference machine; one that it cannot back faults
and leaves no trace.** -/
theorem follows_reference (sound : memory.Sound around)
    (whole : memory.space.layout.codeEnd % Instruction.size = 0) (noting : Bool) (hart : Hart) :
    let missing := (ReferenceHart.of hart).demands (.of memory) \ memory.space.table.domain
    (missing.card ≤ memory.pool.available →
      hart.Follows noting memory ((ReferenceHart.of hart).step (.of memory))) ∧
    (memory.pool.available < missing.card → hart.Faults noting memory .outOfFrames) := by
  intro missing
  have shows : Shows around memory (.of memory) := ⟨sound, rfl, whole, fun _ => rfl⟩
  have meets := hart.meets_step shows noting
  have kept := hart.keeps_step (Memory.guarded_entriesKept memory).toChecked noting memory (.refl _)
  have scarce := sound.available_lt_iff ((ReferenceHart.of hart).demands (.of memory))
  -- Afterwards all that the step needed is mapped, so there were frames for it.
  have backed {after : Memory} (sound' : after.Sound around) (domain : after.space.table.domain =
      memory.space.table.domain ∪ (ReferenceHart.of hart).demands (.of memory)) :
      ¬memory.pool.available < missing.card := by
    have room := sound'.card_le
    rw [domain] at room
    exact mt scarce.mp room.not_gt
  generalize stepped : hart.step noting memory = result at meets kept
  generalize (ReferenceHart.of hart).step (.of memory) = expected at meets
  cases meets with
  | @answer found expected after flat' alike shows' domain =>
      obtain ⟨next, flow⟩ := found
      obtain rfl := alike
      refine ⟨fun _ => ?_, fun short => absurd short (backed shows'.sound domain)⟩
      exact ⟨next, after, stepped, run_one_of_ok stepped, rfl, shows'.of_eq, kept⟩
  | @failure fault after shows' domain =>
      refine ⟨fun _ => ?_, fun short => absurd short (backed shows'.sound domain)⟩
      exact ⟨after, stepped, run_of_error stepped 0, shows'.of_eq, kept⟩
  | @dry after expected shows' short =>
      refine ⟨fun enough => absurd (scarce.mpr short) enough.not_gt, fun _ => ?_⟩
      exact ⟨after, stepped, run_of_error stepped 0, shows'.of_eq, kept⟩

end Hart

/-! ## Contexts -/

namespace Interpreter

/-- **Every step of every context is one of the reference machine, or the pool cannot back it.**
Whatever a machine has done, the next step of a context does what the reference machine does in its
place, if the pool has frames for those pages that the step needs and that are not mapped; otherwise
the step faults for lack of frames.  Whenever it faults, nothing can be seen of it. -/
theorem step_simulates (frames : Nat) (tracing : Bool) (journal : Journal)
    (operations : List Operation) (id : ContextId) (context : Context) :
    let reached := stateAfter Operation.perform operations (.empty frames tracing journal)
    let memory := reached.memoryOf context
    let reference := ReferenceHart.of context.hart
    let missing := reference.demands (.of memory) \ context.space.table.domain
    reached.contexts[id]? = some context → ∀ noting,
      (missing.card ≤ reached.pool.available →
        context.hart.Follows noting memory (reference.step (.of memory))) ∧
      (reached.pool.available < missing.card →
        context.hart.Faults noting memory .outOfFrames) := by
  intro reached memory reference missing found noting
  obtain ⟨sound, settled⟩ : reached.Sound frames ∧ AllSettled reached.contexts :=
    settled_stateAfter frames tracing journal operations
  clear_value reached
  have sound : memory.Sound (reached.around frames id) := sound.memory found reached.journal
  exact Hart.follows_reference sound (settled.get found).codeEnd noting context.hart

/-- Two programs on five frames, which are all in use.  One jumps through the register that it
links, and goes to where the register pointed before.  The other stores to a page of its heap that
has never been touched, for which there is no frame. -/
theorem step_simulates_linking_jump :
    let load (instruction : Instruction) := Operation.create
      (.ofWords [instruction.encode] []) ⟨.demand, 8192, []⟩
    let point (id : ContextId) (address : UInt64) := Operation.alter id
      ⟨fun context => context.withRegister 5 address, fun _ => rfl⟩
    let operations := [load (.jalr 5 5 8), load (.sd 5 5 0), .access 2 (.setProgramBreak 0x12000),
      .access 2 (.load 0xFFFFE000), point 1 0x10000, point 2 0x11000]
    let reached := stateAfter Operation.perform operations (.empty 5 false .silent)
    (∃ context next after, reached.contexts[1]? = some context ∧
      context.hart.step false (reached.memoryOf context) = .ok (next, .next) after ∧
      next.pc = 0x10008 ∧ next.registers.read 5 = 0x10004) ∧
    ∃ context, reached.contexts[2]? = some context ∧
      context.hart.Faults false (reached.memoryOf context) .outOfFrames := by
  intro load point operations reached
  have jump : (reached.contexts[1]?.map fun context =>
      let reference := ReferenceHart.of context.hart
      let flat := FlatMemory.of (reached.memoryOf context)
      ((reference.demands flat \ context.space.table.domain).card,
        (answerOf (reference.step flat)).toOption.map fun found =>
          (found.1.pc, found.1.read 5, found.2))) =
      some (0, some (0x10008, 0x10004, .next)) := by
    decide +kernel
  have store : (reached.contexts[2]?.map fun context =>
      let flat := FlatMemory.of (reached.memoryOf context)
      ((ReferenceHart.of context.hart).demands flat \ context.space.table.domain).card) =
      some 1 := by
    decide +kernel
  have available : reached.pool.available = 0 := by decide +kernel
  constructor
  · obtain ⟨context, found, facts⟩ := Option.map_eq_some_iff.mp jump
    obtain ⟨missing, stepped⟩ := Prod.mk.inj facts
    have follows := (step_simulates 5 false .silent operations 1 context found false).1
      (missing.trans_le (Nat.zero_le _))
    generalize (ReferenceHart.of context.hart).step _ = outcome at follows stepped
    cases outcome with
    | error fault flat => cases stepped
    | ok expected flat =>
        obtain ⟨reference, flow⟩ := expected
        obtain ⟨next, after, step, -, rfl, -⟩ := follows
        injection Option.some.inj stepped with pc rest
        injection rest with register flow
        subst flow
        refine ⟨context, next, after, found, step, UInt64.toBitVec_inj.mp pc, ?_⟩
        exact UInt64.toBitVec_inj.mp register
  · obtain ⟨context, found, missing⟩ := Option.map_eq_some_iff.mp store
    refine ⟨context, found, ?_⟩
    refine (step_simulates 5 false .silent operations 2 context found false).2 ?_
    exact (available.trans_lt Nat.zero_lt_one).trans_eq missing.symm

end Interpreter

end NestedMachine
