import LoadRemover.Signal
import LoadRemover.Proofs.Execution

/-!
# A call through a hook

A `Hook` is the code through which a call of a wrapped function runs: the redirection at its entry point, the wrapper
up to its call, the copy of the function's own first instructions, and the rest of the wrapper. `Hook.run?_enter`
follows a call from the entry point to the function's own code behind the copied instructions, and `Hook.run?_leave`
follows the return. Nothing that the hook writes, the flag and some words below the top of the stack, lies in its code.
-/

namespace LoadRemover.X86

/-- The bytes at an address are the given ones and lie in an area. -/
def Memory.HoldsIn (area : UInt32 → Prop) (memory : Memory) (address : UInt32) (bytes : Bytes) : Prop :=
  memory.Holds address bytes ∧ ∀ i < bytes.length, area (address + UInt32.ofNat i)

/-- Bytes in an area that stays as it is stay there. -/
private theorem Memory.HoldsIn.holds {area : UInt32 → Prop} {memory memory' : Memory} {address : UInt32} {bytes : Bytes}
    (h : memory.HoldsIn area address bytes) (hsame : ∀ a, area a → memory' a = memory a) :
    memory'.Holds address bytes :=
  h.1.congr fun i hi => hsame _ (h.2 i hi)

theorem Memory.HoldsIn.append {area : UInt32 → Prop} {memory : Memory} {address : UInt32} {xs ys : Bytes}
    (h : memory.HoldsIn area address (xs ++ ys)) :
    memory.HoldsIn area address xs ∧ memory.HoldsIn area (address + UInt32.ofNat xs.length) ys := by
  obtain ⟨hxs, hys⟩ := h.1.append
  refine ⟨⟨hxs, fun i hi => h.2 i (by rw [List.length_append]; omega)⟩, hys, fun i hi => ?_⟩
  rw [UInt32.add_assoc, ← UInt32.ofNat_add]
  exact h.2 _ (by rw [List.length_append]; omega)

def forward (args : Nat) : List Operation := List.replicate args (.pushStack (UInt32.ofNat (args * 4)))

/-- The code through which a call of a wrapped function runs, the redirection apart. It lies in `area`. -/
structure Hook (area : UInt32 → Prop) (memory : Memory) where
  entry : UInt32
  wrapper : UInt32
  copy : UInt32
  /-- The address in the wrapper to which the function returns. -/
  back : UInt32
  flag : UInt32
  args : Nat
  endValue : UInt8
  /-- The function's own first instructions. -/
  own : Bytes
  call : ∃ bytes, memory.HoldsIn area wrapper bytes ∧ wrapper + UInt32.ofNat bytes.length = back ∧
    Reads bytes (.storeByte flag Flag.busy :: forward args ++ [.call (copy - back)])
  jump : ∃ bytes, memory.HoldsIn area copy (own ++ bytes) ∧ Reads bytes
    [.jump (entry + UInt32.ofNat own.length - (copy + UInt32.ofNat own.length + UInt32.ofNat bytes.length))]
  ret : ∃ bytes, memory.HoldsIn area back bytes ∧
    Reads bytes [.storeByte flag endValue, .ret (UInt16.ofNat (4 * args))]

def Hook.redirection {area : UInt32 → Prop} {memory : Memory} (hook : Hook area memory) : Bytes :=
  0xE9 :: Bytes.littleEndian32 (hook.wrapper - (hook.entry + 5))

/-- The addresses that a wrapped call leaves as they are: not the flag, and not among the `n` below `top`. -/
def Untouched (flag top : UInt32) (n : Nat) (a : UInt32) : Prop := a ≠ flag ∧ ¬ Below top n a

namespace Machine

variable {machine : Machine}

theorem isStack_forward {args : Nat} {o : Operation} (h : o ∈ forward args) : o.isStack = true := by
  rw [(List.mem_replicate.1 h).2]
  rfl

theorem depth_forward (args : Nat) : depth (forward args) = 4 * args := by
  simp [depth, forward, Operation.depth, Nat.mul_comm]

private theorem depth_append (xs ys : List Operation) : depth (xs ++ ys) = depth xs + depth ys := by
  simp [depth, List.map_append]

theorem depth_take_le (operations : List Operation) (k : Nat) : depth (operations.take k) ≤ depth operations := by
  have := depth_append (operations.take k) (operations.drop k)
  rw [List.take_append_drop] at this
  omega

private theorem memory_untouched {flag : UInt32} (value : UInt8) {n : Nat} {operations : List Operation}
    (hstack : ∀ o ∈ operations, o.isStack = true) (hdepth : depth operations ≤ n) {a : UInt32}
    (ha : Untouched flag machine.top n a) :
    ((machine.store flag [value]).carryOut operations).memory a = machine.memory a := by
  have hflag : ¬ Within flag [value].length a := fun hin => ha.1 hin.eq_of_one
  refine (memory_carryOut hstack hdepth ?_).trans (Memory.store_apart hflag)
  exact ha.2

/-- The state in which a function starts when the wrapper calls it: the flag is up, the topmost `args` arguments lie
once more above a return address, and the function is about to run its own instructions. -/
structure CalledFrom (machine : Machine) (flag back : UInt32) (args : Nat) (called : Machine) : Prop where
  instruction : called.instruction = machine.instruction
  register : ∀ r, r ≠ .esp → called.register r = machine.register r
  top : called.top = machine.top - UInt32.ofNat (4 * (args + 1))
  returnAddress : called.stackWord 0 = back
  argument : ∀ i < args, called.stackWord (i + 1) = machine.stackWord (i + 1)
  raised : called.memory flag = Flag.busy
  memory : ∀ a, Untouched flag machine.top (4 * (args + 1)) a → called.memory a = machine.memory a

/-- What the wrapper makes of the state at the entry point. -/
def called (machine : Machine) (flag back : UInt32) (args : Nat) : Machine :=
  (machine.store flag [Flag.busy]).carryOut (forward args ++ [.pushWord back])

private theorem memory_take {flag : UInt32} (value : UInt8) {n : Nat} {operations : List Operation}
    (hstack : ∀ o ∈ operations, o.isStack = true) (hdepth : depth operations ≤ n) (address : UInt32) (k : Nat)
    {a : UInt32} (ha : Untouched flag machine.top n a) :
    ((machine.goTo address).carryOut ((.storeByte flag value :: operations).take k)).memory a = machine.memory a := by
  cases k with
  | zero => rfl
  | succ k =>
    have htake : ∀ o ∈ operations.take k, o.isStack = true := fun o ho => hstack o (List.mem_of_mem_take ho)
    have hless : depth (operations.take k) ≤ n := Nat.le_trans (depth_take_le operations k) hdepth
    have hgoTo : (machine.goTo address).carryOut ((.storeByte flag value :: operations).take (k + 1)) =
        ((machine.store flag [value]).carryOut (operations.take k)).goTo address :=
      carryOut_goTo (fun o ho => Operation.isStraight_of_isStack (htake o ho)) (machine.store flag [value]) address
    rw [hgoTo]
    exact memory_untouched value htake hless ha

theorem register_carryOut {operations : List Operation} {r : Register}
    (h : ∀ o ∈ operations, ∀ machine : Machine, (machine.apply o).register r = machine.register r) (machine : Machine) :
    (machine.carryOut operations).register r = machine.register r := by
  induction operations generalizing machine with
  | nil => rfl
  | cons operation rest ih =>
    have hrest := ih (fun o ho => h o (List.mem_cons_of_mem _ ho)) (machine.apply operation)
    exact hrest.trans (h operation (List.mem_cons_self ..) machine)

private theorem isStack_pushes (args : Nat) (back : UInt32) :
    ∀ o ∈ forward args ++ [.pushWord back], o.isStack = true := by
  intro o h
  rcases List.mem_append.1 h with h | h
  · exact isStack_forward h
  · rw [List.mem_singleton.1 h]
    rfl

private theorem depth_pushes (args : Nat) (back : UInt32) :
    depth (forward args ++ [.pushWord back]) = 4 * (args + 1) := by
  rw [depth_append, depth_forward]
  rfl

/-- The flag and the stack apart, the function's own first instructions find memory as it was at the entry point. -/
private theorem memory_called {flag back : UInt32} {args n : Nat} {operations : List Operation}
    (hstack : ∀ o ∈ operations, o.isStack = true) (hdepth : 4 * (args + 1) + depth operations ≤ n) {a : UInt32}
    (ha : Untouched flag machine.top n a) :
    ((machine.called flag back args).carryOut operations).memory a = machine.memory a := by
  have hall : ∀ o ∈ forward args ++ [.pushWord back] ++ operations, o.isStack = true := by
    intro o ho
    rcases List.mem_append.1 ho with ho | ho
    · exact isStack_pushes args back o ho
    · exact hstack o ho
  have hless : depth (forward args ++ [.pushWord back] ++ operations) ≤ n := by
    rw [depth_append, depth_pushes]
    exact hdepth
  have hsame := memory_untouched Flag.busy hall hless ha
  rw [carryOut_append] at hsame
  exact hsame

private theorem calledFrom_called {flag : UInt32} {args : Nat} (back : UInt32) (hargs : 8 * args + 8 ≤ 2 ^ 32)
    (hbelow : ¬ Below machine.top (4 * (args + 1)) flag) (habove : ¬ Within machine.top (4 * (args + 1)) flag) :
    machine.CalledFrom flag back args (machine.called flag back args) where
  instruction := by
    have hstraight := fun o ho => Operation.isStraight_of_isStack (isStack_pushes args back o ho)
    exact instruction_carryOut hstraight (machine.store flag [Flag.busy])
  register r hr := by
    refine register_carryOut ?_ (machine.store flag [Flag.busy])
    intro o ho m
    have hpush : ∀ value, (m.push value).register r = m.register r := fun _ => register_set_of_ne m hr _
    rcases List.mem_append.1 ho with ho | ho
    · rw [(List.mem_replicate.1 ho).2]
      exact hpush _
    · rw [List.mem_singleton.1 ho]
      exact hpush back
  top := by
    have := top_carryOut (isStack_pushes args back) (machine.store flag [Flag.busy])
    rwa [depth_pushes] at this
  returnAddress := by
    rw [called, carryOut_append]
    exact stackWord_push_zero _ back
  argument i hi := by
    -- raising the flag does not change the argument, and the pushes copy it
    have hword : (machine.store flag [Flag.busy]).stackWord (i + 1) = machine.stackWord (i + 1) := by
      refine Memory.word_congr fun j hj => Memory.store_apart fun hin => habove ?_
      have haddress : machine.top + UInt32.ofNat (4 * (i + 1) + j) = flag := by
        rw [UInt32.ofNat_add, ← UInt32.add_assoc]
        exact hin.eq_of_one
      rw [← haddress]
      exact within_add (by omega) (by omega)
    rw [called, carryOut_append]
    refine (stackWord_push_succ _ back (by omega)).trans ?_
    have := stackWord_forward (machine.store flag [Flag.busy]) (Nat.le_refl args) (by omega) hi
    rw [forward, this, Nat.sub_self, Nat.zero_add, Nat.add_comm 1 i, hword]
  raised := by
    have hdepth := Nat.le_of_eq (depth_pushes args back)
    have hflag : (machine.store flag [Flag.busy]).memory flag = Flag.busy := by simp [store, Memory.store]
    refine (memory_carryOut (isStack_pushes args back) hdepth ?_).trans hflag
    exact hbelow
  memory a ha := memory_untouched Flag.busy (isStack_pushes args back) (Nat.le_of_eq (depth_pushes args back)) ha

private theorem run?_own (machine : Machine) {own : Bytes} {operations : List Operation} (hown : Reads own operations)
    (hstack : ∀ o ∈ operations, o.isStack = true) (hlength : own.length ≤ 2 ^ 32)
    (hapart : ∀ a, Within machine.instruction own.length a → ¬ Below machine.top (depth operations) a) :
    run? operations.length (machine.store machine.instruction own) =
      some (((machine.store machine.instruction own).carryOut operations).goTo
        (machine.instruction + UInt32.ofNat own.length)) := by
  refine run?_straight (machine.store machine.instruction own) hown
    (fun o ho => Operation.isStraight_of_isStack (hstack o ho)) fun n => ?_
  have hthere := machine.memory.holds_store machine.instruction hlength
  refine hthere.congr fun i hi => ?_
  refine memory_carryOut (fun o ho => hstack o (List.mem_of_mem_take ho)) (depth_take_le operations n) ?_
  exact hapart _ (within_add hi (by omega))

/-- With other bytes over its own instructions a function does the same, if those come from elsewhere. -/
private theorem carryOut_over {own : Bytes} {operations : List Operation} (hstack : ∀ o ∈ operations, o.isStack = true)
    (hblind : ∀ o ∈ operations, o.isBlind = true) {address : UInt32} (hlength : own.length ≤ 2 ^ 32)
    (hapart : ∀ a, Within address own.length a → ¬ Below machine.top (depth operations) a) :
    ((machine.store address own).carryOut operations).store address (machine.memory.slice address own.length) =
      machine.carryOut operations := by
  have hsame : (machine.carryOut operations).memory.slice address own.length =
      machine.memory.slice address own.length := by
    refine List.map_congr_left fun i hi => memory_carryOut hstack (Nat.le_refl _) (hapart _ ?_)
    have := List.mem_range.1 hi
    exact within_add this (by omega)
  rw [carryOut_store hstack hblind hapart, ← hsame]
  have hstore := Memory.store_store (machine.carryOut operations).memory address
    (Memory.length_slice (machine.carryOut operations).memory address own.length).symm
  rw [Memory.store_slice] at hstore
  exact congrArg (Machine.mk (machine.carryOut operations).register (machine.carryOut operations).instruction) hstore

end Machine

namespace Hook

open Machine

variable {area : UInt32 → Prop} {live : Memory} {machine : Machine} {operations : List Operation} {n : Nat}

/-- The number of instructions of the hook before the function's own code: the redirection, the raising of the flag,
the arguments with the call, the copied instructions and the jump behind them. -/
def entrySteps (args : Nat) (operations : List Operation) : Nat := 1 + (args + 2) + (operations.length + 1)

/-- The redirection leads to the wrapper. -/
private theorem run?_redirection (hook : Hook area live) (hentry : machine.instruction = hook.entry)
    (hredirect : machine.memory.Holds hook.entry hook.redirection) :
    run? 1 machine = some (machine.goTo hook.wrapper) := by
  have hread : Reads (0xE9 :: Bytes.littleEndian32 (hook.wrapper - (hook.entry + 5))) ([] ++ [.jump _]) :=
    .single (Operation.encodes_jump _)
  have hlast := run?_last machine hread nofun fun n => by
    rw [List.take_nil, hentry]
    exact hredirect
  have htarget : hook.entry + 5 + (hook.wrapper - (hook.entry + 5)) = hook.wrapper := by grind
  rw [goTo_jump, hentry] at hlast
  rw [← htarget]
  exact hlast

/-- The wrapper raises the flag, pushes the arguments once more and calls the copy. -/
private theorem run?_wrapper (hook : Hook area live) (hintact : ∀ a, area a → machine.memory a = live a)
    (hdepth : 4 * hook.args ≤ n) (harea : ∀ a, area a → Untouched hook.flag machine.top n a) :
    run? (hook.args + 2) (machine.goTo hook.wrapper) =
      some ((machine.called hook.flag hook.back hook.args).goTo hook.copy) := by
  obtain ⟨bytes, hbytes, hback, hcall⟩ := hook.call
  have hstraight : ∀ o ∈ .storeByte hook.flag Flag.busy :: forward hook.args, o.isStraight = true := by
    intro o ho
    rcases List.mem_cons.1 ho with rfl | ho
    · rfl
    · exact Operation.isStraight_of_isStack (isStack_forward ho)
  have hforward : depth (forward hook.args) ≤ n := Nat.le_trans (Nat.le_of_eq (depth_forward hook.args)) hdepth
  -- none of these instructions writes to the hook
  have hlast := run?_last (machine.goTo hook.wrapper) hcall hstraight fun k => hbytes.holds fun a ha =>
    (memory_take Flag.busy (fun o ho => isStack_forward ho) hforward hook.wrapper k (harea a ha)).trans (hintact a ha)
  have htarget : hook.back + (hook.copy - hook.back) = hook.copy := by grind
  have hstart : (machine.goTo hook.wrapper).instruction = hook.wrapper := rfl
  have hlength : (.storeByte hook.flag Flag.busy :: forward hook.args).length = hook.args + 1 := by
    rw [List.length_cons, forward, List.length_replicate]
  rw [carryOut_goTo hstraight, goTo_goTo, goTo_call, hstart, hback, htarget, hlength] at hlast
  have hstate : machine.called hook.flag hook.back hook.args =
      (machine.carryOut (.storeByte hook.flag Flag.busy :: forward hook.args)).push hook.back :=
    carryOut_append ..
  rw [hstate]
  exact hlast

/-- The copy runs the function's own first instructions and jumps to what follows them. -/
private theorem run?_copy (hook : Hook area live) (hintact : ∀ a, area a → machine.memory a = live a)
    (hown : Reads hook.own operations) (hstack : ∀ o ∈ operations, o.isStack = true)
    (hdepth : 4 * (hook.args + 1) + depth operations ≤ n)
    (harea : ∀ a, area a → Untouched hook.flag machine.top n a) :
    run? (operations.length + 1) ((machine.called hook.flag hook.back hook.args).goTo hook.copy) =
      some (((machine.called hook.flag hook.back hook.args).carryOut operations).goTo
        (hook.entry + UInt32.ofNat hook.own.length)) := by
  obtain ⟨bytes, hbytes, hjump⟩ := hook.jump
  have hstraight : ∀ o ∈ operations, o.isStraight = true := fun o ho => Operation.isStraight_of_isStack (hstack o ho)
  have hkeep : ∀ k a, area a → (((machine.called hook.flag hook.back hook.args).goTo hook.copy).carryOut
      (operations.take k)).memory a = machine.memory a := by
    intro k a ha
    have hless : 4 * (hook.args + 1) + depth (operations.take k) ≤ n :=
      Nat.le_trans (Nat.add_le_add_left (depth_take_le operations k) _) hdepth
    rw [carryOut_goTo fun o ho => hstraight o (List.mem_of_mem_take ho)]
    exact memory_called (fun o ho => hstack o (List.mem_of_mem_take ho)) hless (harea a ha)
  have hlast := run?_last _ (hown.append hjump) hstraight fun k =>
    hbytes.holds fun a ha => (hkeep k a ha).trans (hintact a ha)
  have hstart : ((machine.called hook.flag hook.back hook.args).goTo hook.copy).instruction = hook.copy := rfl
  have htarget : hook.copy + UInt32.ofNat (hook.own ++ bytes).length + (hook.entry + UInt32.ofNat hook.own.length -
      (hook.copy + UInt32.ofNat hook.own.length + UInt32.ofNat bytes.length)) =
      hook.entry + UInt32.ofNat hook.own.length := by
    rw [List.length_append, UInt32.ofNat_add]
    grind
  rw [carryOut_goTo hstraight, goTo_goTo, goTo_jump, hstart, htarget] at hlast
  exact hlast

/-- A call runs through the hook to the function's own code behind the copied instructions. -/
private theorem run?_enter (hook : Hook area live) (hintact : ∀ a, area a → machine.memory a = live a)
    (hentry : machine.instruction = hook.entry) (hredirect : machine.memory.Holds hook.entry hook.redirection)
    (hown : Reads hook.own operations) (hstack : ∀ o ∈ operations, o.isStack = true)
    (hdepth : 4 * (hook.args + 1) + depth operations ≤ n)
    (harea : ∀ a, area a → Untouched hook.flag machine.top n a) :
    run? (entrySteps hook.args operations) machine =
      some (((machine.called hook.flag hook.back hook.args).carryOut operations).goTo
        (hook.entry + UInt32.ofNat hook.own.length)) := by
  have hwrapper := hook.run?_wrapper hintact (by omega) harea
  have hcopy := hook.run?_copy hintact hown hstack hdepth harea
  exact run?_add (run?_add (hook.run?_redirection hentry hredirect) hwrapper) hcopy

/-- When the function's own code goes on, the flag is raised, the address to which it returns is on the stack, and the
call has written to nothing else but the stack. -/
theorem exists_enter (hook : Hook area live) (hintact : ∀ a, area a → machine.memory a = live a)
    (hentry : machine.instruction = hook.entry) (hredirect : machine.memory.Holds hook.entry hook.redirection)
    (hown : Reads hook.own operations) (hstack : ∀ o ∈ operations, o.isStack = true)
    (hdepth : 4 * (hook.args + 1) + depth operations ≤ n) (hn : n + 4 ≤ 2 ^ 32) (hargs : 8 * hook.args + 8 ≤ 2 ^ 32)
    (harea : ∀ a, area a → Untouched hook.flag machine.top n a)
    (hbelow : ¬ Below machine.top n hook.flag) (habove : ¬ Within machine.top (4 * (hook.args + 1)) hook.flag) :
    ∃ inner, run? (entrySteps hook.args operations) machine = some inner ∧ inner.memory hook.flag = Flag.busy ∧
      inner.memory.word (machine.top - UInt32.ofNat (4 * (hook.args + 1))) = hook.back ∧
      ∀ a, Untouched hook.flag machine.top n a → inner.memory a = machine.memory a := by
  have hcalled := calledFrom_called hook.back hargs (fun h => hbelow (h.mono (by omega))) habove
  have hdeeper : ∀ a, ¬ Below machine.top n a →
      ((machine.called hook.flag hook.back hook.args).carryOut operations).memory a =
      (machine.called hook.flag hook.back hook.args).memory a := by
    intro a ha
    refine memory_carryOut hstack (Nat.le_refl _) fun hin => ha ?_
    rw [hcalled.top] at hin
    exact hin.of_sub hdepth
  refine ⟨_, hook.run?_enter hintact hentry hredirect hown hstack hdepth harea, ?_, ?_, fun a ha => ?_⟩
  · exact (hdeeper _ hbelow).trans hcalled.raised
  · have hword := word_carryOut (machine.called hook.flag hook.back hook.args) hstack (d := 0) (by omega)
    have htop : (machine.called hook.flag hook.back hook.args).top + UInt32.ofNat 0 =
        machine.top - UInt32.ofNat (4 * (hook.args + 1)) := (UInt32.add_zero _).trans hcalled.top
    rw [htop] at hword
    exact hword.trans (htop ▸ hcalled.returnAddress)
  · exact memory_called hstack hdepth ha

/-- A call through the hook reaches the function's own code in the state in which the function would be there if the
wrapper had called it without a hook at its entry point. -/
theorem enter_eq_own (hook : Hook area live) (hintact : ∀ a, area a → machine.memory a = live a)
    (hentry : machine.instruction = hook.entry) (hredirect : machine.memory.Holds hook.entry hook.redirection)
    (hown : Reads hook.own operations) (hstack : ∀ o ∈ operations, o.isStack = true)
    (hblind : ∀ o ∈ operations, o.isBlind = true) (hdepth : 4 * (hook.args + 1) + depth operations ≤ n)
    (hargs : 8 * hook.args + 8 ≤ 2 ^ 32) (hlength : hook.own.length ≤ 2 ^ 32)
    (harea : ∀ a, area a → Untouched hook.flag machine.top n a)
    (hplace : ∀ a, Within hook.entry hook.own.length a → Untouched hook.flag machine.top n a)
    (hbelow : ¬ Below machine.top n hook.flag) (habove : ¬ Within machine.top (4 * (hook.args + 1)) hook.flag) :
    ∃ called final, machine.CalledFrom hook.flag hook.back hook.args called ∧
      run? operations.length (called.store hook.entry hook.own) = some final ∧
      final.instruction = hook.entry + UInt32.ofNat hook.own.length ∧
      machine.Reaches (final.store hook.entry (machine.memory.slice hook.entry hook.own.length)) := by
  have hcalled := calledFrom_called hook.back hargs (fun h => hbelow (h.mono (by omega))) habove
  have hinstruction : (machine.called hook.flag hook.back hook.args).instruction = hook.entry :=
    hcalled.instruction.trans hentry
  have hapart : ∀ a, Within hook.entry hook.own.length a →
      ¬ Below (machine.called hook.flag hook.back hook.args).top (depth operations) a := by
    intro a ha hin
    rw [hcalled.top] at hin
    exact (hplace a ha).2 (hin.of_sub hdepth)
  -- on the way to the function nothing is written to its own place
  have hslice : machine.memory.slice hook.entry hook.own.length =
      (machine.called hook.flag hook.back hook.args).memory.slice hook.entry hook.own.length := by
    refine List.map_congr_left fun i hi => (hcalled.memory _ ?_).symm
    have hi := List.mem_range.1 hi
    obtain ⟨hflag, hin⟩ := hplace _ (within_add hi (by omega))
    exact ⟨hflag, fun h => hin (h.mono (by omega))⟩
  have hrun := run?_own (machine.called hook.flag hook.back hook.args) hown hstack hlength
    (by rw [hinstruction]; exact hapart)
  rw [hinstruction] at hrun
  refine ⟨_, _, hcalled, hrun, rfl, ?_⟩
  have hover := carryOut_over hstack hblind hlength hapart
  have henter := hook.run?_enter hintact hentry hredirect hown hstack hdepth harea
  rw [← hover, ← hslice] at henter
  exact ⟨_, henter⟩

/-- The function's return runs through the rest of the wrapper to the caller. -/
theorem run?_leave (hook : Hook area live) (hintact : ∀ a, area a → machine.memory a = live a)
    (hback : machine.instruction = hook.back)
    (hargs : 4 * hook.args < 2 ^ 16) (harea : ∀ a, area a → a ≠ hook.flag) (hflag : ¬ Within machine.top 4 hook.flag) :
    ∃ done, run? 2 machine = some done ∧ done.instruction = machine.stackWord 0 ∧
      done.top = machine.top + UInt32.ofNat (4 * (hook.args + 1)) ∧
      (∀ r, r ≠ .esp → done.register r = machine.register r) ∧
      done.memory = machine.memory.store hook.flag [hook.endValue] := by
  obtain ⟨bytes, hbytes, hret⟩ := hook.ret
  have hstraight : ∀ o ∈ [Operation.storeByte hook.flag hook.endValue], o.isStraight = true := by
    intro o ho
    rw [List.mem_singleton.1 ho]
    rfl
  have hlast := run?_last machine hret hstraight fun k => by
    rw [hback]
    refine hbytes.holds fun a ha => ?_
    -- the flag is down again before the return is read
    cases k with
    | zero => exact hintact a ha
    | succ k =>
      have hstore : ¬ Within hook.flag [hook.endValue].length a := fun hin => harea a ha hin.eq_of_one
      rw [List.take_of_length_le (by simp)]
      exact (Memory.store_apart hstore).trans (hintact a ha)
  -- the return address and the arguments are removed
  have hpop : (4 : UInt32) + (UInt16.ofNat (4 * hook.args)).toUInt32 = UInt32.ofNat (4 * (hook.args + 1)) := by
    apply UInt32.toNat_inj.1
    simp
    omega
  refine ⟨_, hlast, ?_, ?_, fun r hr => register_set_of_ne _ hr _, rfl⟩
  · refine Memory.word_congr fun i hi => Memory.store_apart fun hin => hflag ?_
    have haddress : machine.top + UInt32.ofNat i = hook.flag := by
      rw [← UInt32.add_zero machine.top]
      exact hin.eq_of_one
    rw [← haddress]
    exact within_add hi (by omega)
  · have htop := machine.register_set_self .esp (machine.top + 4 + (UInt16.ofNat (4 * hook.args)).toUInt32)
    rw [UInt32.add_assoc, hpop] at htop
    rw [← htop, ← hpop, ← UInt32.add_assoc]
    rfl

end Hook

end LoadRemover.X86
