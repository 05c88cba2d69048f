import LoadRemover.Proofs.Hook
import LoadRemover.Proofs.Merging

/-!
# Calls that hand on arguments

A call with arguments first pushes copies of the topmost `args` words above the return address, and then goes to its
destination. All of the pushes name the same distance from the top, and the top moves under them, so that each of them
finds the next word (`Machine.stackWord_forward`).

* `Machine.Forwarded`: what the pushes make of a state;
* `CallTarget.run?_emit`: the pushes and the call that an instruction at the end of a buffer stands for, run in place;
* `CallTarget.forwards_arguments`: the same for whatever is added later, and wherever the buffer is moved, up to the
  return.
-/

namespace LoadRemover

open X86

/-- Where a call goes: to a label of its own buffer, or to an address that stays where it is. -/
inductive CallTarget where
  | inside (label : Nat)
  | outside (target : UInt32)

namespace CallTarget

def instruction (args : UInt8) : CallTarget → Instruction
  | .inside label => .callLabel label args
  | .outside target => .callAddress target args

/-- The address to which the call goes from a buffer. -/
def destination (code : Code) : CallTarget → UInt32
  | .inside label => code.address label
  | .outside target => target

private theorem operations_instruction (call : CallTarget) (args : UInt8) (code : Code) :
    (call.instruction args).operations code =
      forward args.toNat ++ [.call (call.destination code - (code.emit (call.instruction args)).endAddress)] := by
  cases call <;> rfl

end CallTarget

/-! ### Where an instruction lies -/

/-- The addresses of a piece are among those of the bytes that it is a piece of. -/
private theorem X86.Within.of_piece {base a : UInt32} {front piece rest : Bytes}
    (h : Within (base + UInt32.ofNat front.length) piece.length a) :
    Within base (front ++ (piece ++ rest)).length a := by
  obtain ⟨i, hi, -, rfl⟩ := h.exists
  have hoffset : base + UInt32.ofNat front.length + UInt32.ofNat i - base = UInt32.ofNat (front.length + i) := by
    rw [UInt32.ofNat_add]
    grind
  rw [Within, hoffset, UInt32.toNat_ofNat', List.length_append, List.length_append]
  exact Nat.lt_of_le_of_lt (Nat.mod_le _ _) (by omega)

/-- Whatever is added later, and wherever the buffer is moved, an instruction lies in it as if it had been added at the
final address. -/
private theorem Code.bytes_performAll_emit {code : Code} (h : code.Fit) (instruction : Instruction)
    (later : List Step) :
    let built := (code.emit instruction).performAll later
    ∃ rest, built.bytes = (code.moveTo built.base).bytes ++ ((instruction.encode (code.moveTo built.base)).bytes ++
      rest) := by
  intro built
  have hcontinues := continues_performAll (h.emit instruction) later
  rw [moveTo_emit h] at hcontinues
  obtain ⟨rest, hrest⟩ := hcontinues.bytes
  exact ⟨rest, hrest.symm.trans (List.append_assoc ..)⟩

/-! ### The pushes -/

namespace X86.Machine

variable {machine pushed : Machine} {args : Nat}

/-- The words above the return address lie on the stack once more, in their order. Nothing but the bytes of the copies
and the top of the stack has changed. -/
structure Forwarded (machine : Machine) (args : Nat) (pushed : Machine) : Prop where
  top : pushed.top = machine.top - UInt32.ofNat (4 * args)
  argument : ∀ i < args, pushed.stackWord i = machine.stackWord (i + 1)
  memory : ∀ a, ¬ Below machine.top (4 * args) a → pushed.memory a = machine.memory a
  register : ∀ r, r ≠ .esp → pushed.register r = machine.register r

private theorem forwarded_carryOut (machine : Machine) (hargs : 8 * args + 4 ≤ 2 ^ 32) :
    machine.Forwarded args (machine.carryOut (forward args)) where
  top := by
    rw [top_carryOut (fun o ho => isStack_forward ho), depth_forward]
  argument i hi := by
    rw [forward, stackWord_forward machine (Nat.le_refl args) hargs hi]
    congr 1
    omega
  memory a ha := memory_carryOut (fun o ho => isStack_forward ho) (Nat.le_of_eq (depth_forward args)) ha
  register r hr := by
    refine register_carryOut (fun o ho m => ?_) machine
    rw [(List.mem_replicate.1 ho).2]
    exact register_set_of_ne m hr _

private theorem Forwarded.goTo (h : machine.Forwarded args pushed) (a : UInt32) :
    machine.Forwarded args (pushed.goTo a) :=
  ⟨h.top, h.argument, h.memory, h.register⟩

/-- The state at the destination of a call: on top of the copies lies the address behind the call. -/
structure Entered (machine : Machine) (args : Nat) (destination back : UInt32) (called : Machine) : Prop where
  instruction : called.instruction = destination
  top : called.top = machine.top - UInt32.ofNat (4 * (args + 1))
  returnAddress : called.stackWord 0 = back
  argument : ∀ i < args, called.stackWord (i + 1) = machine.stackWord (i + 1)
  memory : ∀ a, ¬ Below machine.top (4 * (args + 1)) a → called.memory a = machine.memory a
  register : ∀ r, r ≠ .esp → called.register r = machine.register r

private theorem Forwarded.entered (h : machine.Forwarded args pushed) (hargs : 4 * args + 4 ≤ 2 ^ 32)
    (destination back : UInt32) :
    machine.Entered args destination back ((pushed.push back).goTo destination) where
  instruction := rfl
  top := by
    have htop : pushed.top - 4 = machine.top - UInt32.ofNat (4 * (args + 1)) := by
      rw [h.top, Nat.mul_add, UInt32.ofNat_add]
      grind
    exact htop
  returnAddress := stackWord_push_zero pushed back
  argument i hi := (stackWord_push_succ pushed back (by omega)).trans (h.argument i hi)
  memory a ha := by
    have hpushed : ¬ Below pushed.top 4 a := by
      intro hin
      rw [h.top] at hin
      exact ha (hin.of_sub (by omega))
    refine Eq.trans (Memory.store_apart hpushed) (h.memory a ?_)
    intro hin
    exact ha (hin.mono (by omega))
  register r hr := (register_set_of_ne pushed hr _).trans (h.register r hr)

/-- A return that removes the arguments leaves the stack as it was before the first push. -/
private theorem Entered.returns {destination back : UInt32} {called done : Machine} {bytes : Bytes}
    (h : machine.Entered args destination back called) (hargs : 4 * args < 2 ^ 16) (htop : done.top = called.top)
    (hbytes : done.memory.Holds done.instruction bytes) (hret : Encodes bytes (.ret (UInt16.ofNat (4 * args)))) :
    ∃ after, done.step? = some after ∧ after.top = machine.top ∧ after.instruction = done.stackWord 0 := by
  refine ⟨_, step?_eq hbytes hret, ?_, rfl⟩
  have hpop : (UInt16.ofNat (4 * args)).toUInt32 = UInt32.ofNat (4 * args) := by
    apply UInt32.toNat_inj.1
    simp
    omega
  have hafter : done.top + 4 + UInt32.ofNat (4 * args) = machine.top := by
    rw [htop, h.top, Nat.mul_add, UInt32.ofNat_add]
    grind
  rw [← hpop] at hafter
  exact hafter

end X86.Machine

/-! ### The call -/

namespace CallTarget

open X86.Machine

variable {machine : Machine}

/-- The pushes and the call, run where a buffer has them, if the stack is somewhere else. -/
private theorem run?_emit (call : CallTarget) (args : UInt8) (code : Code)
    (hstart : machine.instruction = code.endAddress)
    (hholds : machine.memory.Holds code.endAddress ((call.instruction args).encode code).bytes)
    (hstack : ∀ a, Below machine.top (4 * args.toNat) a →
      ¬ Within code.endAddress ((call.instruction args).encode code).bytes.length a) :
    ∃ pushed called, run? args.toNat machine = some pushed ∧ machine.Forwarded args.toNat pushed ∧
      pushed.step? = some called ∧ machine.Entered args.toNat (call.destination code)
        (code.emit (call.instruction args)).endAddress called := by
  have hargs := args.toNat_lt
  have hreads := (call.instruction args).reads_encode code
  have hend : code.endAddress + UInt32.ofNat ((call.instruction args).encode code).bytes.length =
      (code.emit (call.instruction args)).endAddress :=
    (@Code.endAddress_of_bytes (code.emit (call.instruction args)) code _ rfl rfl).symm
  rw [call.operations_instruction args code] at hreads
  -- after any number of pushes the code is still there
  have hcode : ∀ n, (machine.carryOut ((forward args.toNat).take n)).memory.Holds machine.instruction
      ((call.instruction args).encode code).bytes := by
    intro n
    rw [hstart]
    refine hholds.congr fun i hi => ?_
    have hdepth : depth ((forward args.toNat).take n) ≤ 4 * args.toNat := by
      have hle := depth_take_le (forward args.toNat) n
      rwa [depth_forward] at hle
    refine memory_carryOut (fun o ho => isStack_forward (List.mem_of_mem_take ho)) hdepth fun hin => ?_
    refine hstack _ hin ?_
    have hoffset : code.endAddress + UInt32.ofNat i - code.endAddress = UInt32.ofNat i := by grind
    rw [Within, hoffset, UInt32.toNat_ofNat']
    exact Nat.lt_of_le_of_lt (Nat.mod_le _ _) hi
  have hstraight : ∀ o ∈ forward args.toNat, o.isStraight = true := fun o ho =>
    Operation.isStraight_of_isStack (isStack_forward ho)
  obtain ⟨front, back, hsplit, hpushes, hcall⟩ := hreads.split
  rw [hsplit] at hcode hend
  have hrun := run?_straight machine hpushes hstraight fun n => (hcode n).append.1
  have hforwarded : machine.Forwarded args.toNat (machine.carryOut (forward args.toNat)) :=
    machine.forwarded_carryOut (by omega)
  have hlength : (forward args.toNat).length = args.toNat := List.length_replicate
  rw [hlength, hstart] at hrun
  -- the call comes behind the pushes
  have hthere := (hcode args.toNat).append.2
  rw [List.take_of_length_le (Nat.le_of_eq hlength), hstart] at hthere
  have hstep : ((machine.carryOut (forward args.toNat)).goTo
      (code.endAddress + UInt32.ofNat front.length)).step? = _ := step?_eq hthere hcall.encodes
  have htarget : ∀ a b : UInt32, a + (b - a) = b := by
    intro a b
    grind
  have hnext : code.endAddress + UInt32.ofNat front.length + UInt32.ofNat back.length =
      (code.emit (call.instruction args)).endAddress := by
    rw [← hend, List.length_append, UInt32.ofNat_add, UInt32.add_assoc]
  rw [show ((machine.carryOut (forward args.toNat)).goTo
      (code.endAddress + UInt32.ofNat front.length)).instruction = code.endAddress + UInt32.ofNat front.length from rfl,
    hnext, goTo_goTo, goTo_call, htarget] at hstep
  exact ⟨_, _, hrun, hforwarded.goTo _, hstep, hforwarded.entered (by omega) _ _⟩

/-- **Arguments are handed on.** In a buffer that was built in any way, with anything behind the call, and moved
anywhere, the pushes of a call lower the top of the stack by the size of the arguments and copy them there in their
order; no other byte and no other register changes. Then the call enters its destination with the copies as its
arguments and the address behind it as the return address. A function that removes its arguments when it returns
leaves the top of the stack where it was before the first push. -/
theorem forwards_arguments (recipe : Code.Recipe) (call : CallTarget) (args : UInt8) (later : List Code.Step) :
    let emitted := recipe.code.emit (call.instruction args)
    let built := emitted.performAll later
    ∀ machine : Machine, machine.memory.Holds built.base built.bytes →
      (∀ a, Below machine.top (4 * (args.toNat + 1)) a → ¬ Within built.base built.size a) →
      machine.instruction = built.address recipe.code.size →
      ∃ pushed called, run? args.toNat machine = some pushed ∧ machine.Forwarded args.toNat pushed ∧
        pushed.step? = some called ∧
        machine.Entered args.toNat (call.destination built) (built.address emitted.size) called ∧
        ∀ (done : Machine) (bytes : Bytes), done.top = called.top → done.memory.Holds done.instruction bytes →
          Encodes bytes (.ret (UInt16.ofNat (4 * args.toNat))) →
          ∃ after : Machine, done.step? = some after ∧ after.top = machine.top ∧
            after.instruction = done.stackWord 0 := by
  intro emitted built machine hholds hstack hstart
  have hargs := args.toNat_lt
  obtain ⟨rest, hbytes⟩ := Code.bytes_performAll_emit recipe.fit (call.instruction args) later
  have hplace : (recipe.code.moveTo built.base).endAddress = built.address recipe.code.size := by
    rw [Code.endAddress, Code.address, Code.size_moveTo recipe.fit]
    rfl
  have hend : ((recipe.code.moveTo built.base).emit (call.instruction args)).endAddress =
      built.address emitted.size := by
    rw [← Code.moveTo_emit recipe.fit, Code.endAddress, Code.address, Code.size_moveTo (recipe.fit.emit _)]
    rfl
  have hdestination : call.destination (recipe.code.moveTo built.base) = call.destination built := by
    cases call <;> rfl
  have hholds' := hholds
  rw [hbytes] at hholds'
  have hrun := call.run?_emit args (recipe.code.moveTo built.base) (hstart.trans hplace.symm) hholds'.append.2.append.1
    fun a hbelow hin => hstack a (hbelow.mono (by omega)) ?_
  · rw [hend, hdestination] at hrun
    obtain ⟨pushed, called, hpushed, hforwarded, hcalled, hentered⟩ := hrun
    refine ⟨pushed, called, hpushed, hforwarded, hcalled, hentered, ?_⟩
    intro done bytes htop hret hencodes
    exact hentered.returns (by omega) htop hret hencodes
  · -- the bytes of the call are some of those of the buffer
    change X86.Within built.base built.bytes.length a
    rw [hbytes]
    exact hin.of_piece

/-- With so many arguments each push has a distance of four bytes. -/
theorem forwards_arguments_far :
    let built := (Code.emptyAt 0x1000).emit ((outside 0x5000).instruction 33)
    let machine : Machine := ⟨fun _ => 0x100000, 0x1000, Memory.store (·.toUInt8) 0x1000 built.bytes⟩
    built.size = 236 ∧ machine.memory.Holds 0x1000 built.bytes ∧
      (∀ a, Below machine.top 136 a → ¬ Within 0x1000 236 a) ∧
      ∃ pushed called, run? 33 machine = some pushed ∧ pushed.step? = some called ∧
        called.instruction = 0x5000 ∧ called.top = 0x100000 - 136 ∧ called.stackWord 0 = 0x10EC := by
  intro built machine
  have hsize : built.size = 236 := by decide +kernel
  have hholds : machine.memory.Holds 0x1000 built.bytes := by
    refine Memory.holds_store _ _ (Nat.le_trans (Nat.le_of_eq hsize) ?_)
    omega
  have hstack : ∀ a, Below machine.top 136 a → ¬ Within 0x1000 236 a :=
    (apart_of_le (by decide +kernel) (by decide +kernel)).symm
  obtain ⟨pushed, called, hrun, -, hstep, hentered, -⟩ :=
    forwards_arguments ⟨0x1000, []⟩ (.outside 0x5000) 33 [] machine hholds hstack rfl
  have hback : built.address built.size = 0x10EC := by
    rw [hsize]
    rfl
  exact ⟨hsize, hholds, hstack, pushed, called, hrun, hstep, hentered.instruction, hentered.top,
    hentered.returnAddress.trans hback⟩

end CallTarget

end LoadRemover
