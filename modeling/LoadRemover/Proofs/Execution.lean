import Mathlib.Algebra.Order.Ring.Nat
import LoadRemover.X86.Machine
import LoadRemover.Proofs.Decoding

/-!
# Running straight code

Most of what a wrapper does is straight code: pushes and moves that never jump. Such a run is decided by the
operations alone, as long as it does not write over its own instructions (`Machine.run?_straight`).

* `Within` and `Below`: an address among those of a range or below one, counted modulo `2 ^ 32`;
* `Machine.memory_carryOut`: operations on the stack change nothing but the stack;
* `Machine.carryOut_store`: operations that do not read memory do the same over other bytes;
* `Machine.stackWord_forward`: pushing the word at one distance from the top again and again copies the arguments.
-/

namespace LoadRemover.X86

/-! ### Ranges of addresses -/

/-- Whether `a` is one of the `n` addresses from `address` on. -/
def Within (address : UInt32) (n : Nat) (a : UInt32) : Prop := (a - address).toNat < n

theorem within_add {address : UInt32} {n i : Nat} (h : i < n) (hn : i < 2 ^ 32) :
    Within address n (address + UInt32.ofNat i) := by
  have hsub : address + UInt32.ofNat i - address = UInt32.ofNat i := by grind
  rw [Within, hsub, UInt32.toNat_ofNat_of_lt' hn]
  exact h

theorem Within.exists {address a : UInt32} {n : Nat} (h : Within address n a) :
    ∃ i, i < n ∧ i < 2 ^ 32 ∧ a = address + UInt32.ofNat i := by
  refine ⟨(a - address).toNat, h, (a - address).toNat_lt, ?_⟩
  rw [UInt32.ofNat_toNat]
  grind

theorem Within.eq_of_one {address a : UInt32} (h : Within address 1 a) : a = address := by
  obtain ⟨i, hi, -, rfl⟩ := h.exists
  obtain rfl : i = 0 := by omega
  exact UInt32.add_zero address

def Apart (address : UInt32) (n : Nat) (address' : UInt32) (k : Nat) : Prop :=
  ∀ a, Within address n a → ¬ Within address' k a

theorem Apart.mono {address address' : UInt32} {n k n' k' : Nat} (h : Apart address n address' k) (hn : n' ≤ n)
    (hk : k' ≤ k) : Apart address n' address' k' :=
  fun a ha ha' => h a (Nat.lt_of_lt_of_le ha hn) (Nat.lt_of_lt_of_le ha' hk)

theorem Apart.symm {address address' : UInt32} {n k : Nat} (h : Apart address n address' k) :
    Apart address' k address n :=
  fun a ha ha' => h a ha' ha

theorem apart_of_le {address address' : UInt32} {n k : Nat} (h : address.toNat + n ≤ address'.toNat)
    (hk : address'.toNat + k ≤ 2 ^ 32) : Apart address n address' k := by
  intro a ha ha'
  obtain ⟨i, hi, -, rfl⟩ := ha.exists
  obtain ⟨j, hj, -, heq⟩ := ha'.exists
  have hnat := congrArg UInt32.toNat heq
  have := address.toNat_lt
  simp only [UInt32.toNat_add, UInt32.toNat_ofNat'] at hnat
  omega

/-- Whether `a` is one of the `n` addresses below `top`. -/
def Below (top : UInt32) (n : Nat) (a : UInt32) : Prop := Within (top - UInt32.ofNat n) n a

theorem Below.of_sub {top a : UInt32} {d k n : Nat} (h : Below (top - UInt32.ofNat d) k a) (hn : d + k ≤ n) :
    Below top n a := by
  obtain ⟨j, rfl⟩ : ∃ j, n = k + d + j := ⟨n - (k + d), by omega⟩
  have hsub : a - (top - UInt32.ofNat (k + d + j)) = a - (top - UInt32.ofNat d - UInt32.ofNat k) + UInt32.ofNat j := by
    rw [UInt32.ofNat_add, UInt32.ofNat_add]
    grind
  have hle := Nat.mod_le ((a - (top - UInt32.ofNat d - UInt32.ofNat k)).toNat + j) (2 ^ 32)
  have hlt : (a - (top - UInt32.ofNat d - UInt32.ofNat k)).toNat < k := h
  rw [Below, Within, hsub, UInt32.toNat_add, UInt32.toNat_ofNat', Nat.add_mod_mod]
  omega

theorem Below.mono {top a : UInt32} {d n : Nat} (h : Below top d a) (hn : d ≤ n) : Below top n a := by
  have htop : top - UInt32.ofNat 0 = top := by simp
  refine Below.of_sub (d := 0) (k := d) ?_ (by omega)
  rw [htop]
  exact h

private theorem not_below_add {top : UInt32} {n d : Nat} (h : n + d < 2 ^ 32) :
    ¬ Below top n (top + UInt32.ofNat d) := by
  have hsub : top + UInt32.ofNat d - (top - UInt32.ofNat n) = UInt32.ofNat (n + d) := by
    rw [UInt32.ofNat_add]
    grind
  rw [Below, Within, hsub, UInt32.toNat_ofNat_of_lt' h]
  omega

namespace Memory

variable {memory memory' : Memory} {address a : UInt32} {bytes xs ys : Bytes}

theorem holds_iff : memory.Holds address bytes ↔
    ∀ i (h : i < bytes.length), memory (address + UInt32.ofNat i) = bytes[i] := by
  constructor
  · intro h i hi
    have hget : (memory.slice address bytes.length)[i]? = bytes[i]? := by rw [h]
    rw [slice, List.getElem?_map, List.getElem?_range hi, List.getElem?_eq_getElem hi] at hget
    exact Option.some.inj hget
  · intro h
    refine List.ext_getElem (by simp [slice]) fun i h₁ h₂ => ?_
    simp only [slice, List.getElem_map, List.getElem_range]
    exact h i h₂

theorem Holds.append (h : memory.Holds address (xs ++ ys)) :
    memory.Holds address xs ∧ memory.Holds (address + UInt32.ofNat xs.length) ys := by
  rw [holds_iff] at h
  rw [holds_iff, holds_iff]
  constructor
  · intro i hi
    have := h i (by rw [List.length_append]; omega)
    rwa [List.getElem_append_left hi] at this
  · intro i hi
    have := h (xs.length + i) (by rw [List.length_append]; omega)
    rw [List.getElem_append_right (by omega)] at this
    simpa only [UInt32.add_assoc, ← UInt32.ofNat_add, Nat.add_sub_cancel_left] using this

theorem Holds.congr (h : memory.Holds address bytes)
    (hsame : ∀ i < bytes.length, memory' (address + UInt32.ofNat i) = memory (address + UInt32.ofNat i)) :
    memory'.Holds address bytes := by
  rw [holds_iff] at h ⊢
  intro i hi
  rw [hsame i hi]
  exact h i hi

theorem length_slice (memory : Memory) (address : UInt32) (n : Nat) : (memory.slice address n).length = n := by
  simp [slice]

private theorem Holds.slice_eq (h : memory.Holds address bytes) {n : Nat} (hn : bytes.length ≤ n) :
    ∃ rest, memory.slice address n = bytes ++ rest := by
  refine ⟨(memory.slice address n).drop bytes.length, ?_⟩
  have hfront : (memory.slice address n).take bytes.length = bytes := by
    have htake : (memory.slice address n).take bytes.length = memory.slice address bytes.length := by
      rw [slice, ← List.map_take, List.take_range, Nat.min_eq_left hn]
      rfl
    rw [htake]
    exact h
  rw [← List.take_append_drop bytes.length (memory.slice address n), hfront]
  simp

private theorem store_within (h : Within address bytes.length a) :
    memory.store address bytes a = bytes.get ⟨(a - address).toNat, h⟩ := by
  rw [store, List.getD_eq_getElem?_getD, List.getElem?_eq_getElem h]
  rfl

theorem store_apart (h : ¬ Within address bytes.length a) : memory.store address bytes a = memory a := by
  have : bytes.length ≤ (a - address).toNat := Nat.le_of_not_lt h
  rw [store, List.getD_eq_getElem?_getD, List.getElem?_eq_none this]
  rfl

theorem holds_store (memory : Memory) (address : UInt32) (h : bytes.length ≤ 2 ^ 32) :
    (memory.store address bytes).Holds address bytes := by
  rw [holds_iff]
  intro i hi
  have hsub : (address + UInt32.ofNat i - address).toNat = i := by
    have : address + UInt32.ofNat i - address = UInt32.ofNat i := by grind
    rw [this, UInt32.toNat_ofNat_of_lt' (by show i < 2 ^ 32; omega)]
  rw [store, hsub, List.getD_eq_getElem?_getD, List.getElem?_eq_getElem hi]
  rfl

private theorem store_comm (memory : Memory) {address' : UInt32}
    (hapart : Apart address xs.length address' ys.length) :
    (memory.store address xs).store address' ys = (memory.store address' ys).store address xs := by
  funext a
  by_cases ha : Within address xs.length a
  · rw [store_apart (hapart a ha), store_within ha, store_within ha]
  · rw [store_apart ha]
    by_cases ha' : Within address' ys.length a
    · rw [store_within ha', store_within ha']
    · rw [store_apart ha', store_apart ha', store_apart ha]

theorem store_store (memory : Memory) (address : UInt32) (h : xs.length = ys.length) :
    (memory.store address xs).store address ys = memory.store address ys := by
  funext a
  by_cases ha : Within address ys.length a
  · rw [store_within ha, store_within ha]
  · rw [store_apart ha, store_apart ha, store_apart (by rwa [h])]

theorem store_slice (memory : Memory) (address : UInt32) (n : Nat) :
    memory.store address (memory.slice address n) = memory := by
  funext a
  by_cases ha : Within address (memory.slice address n).length a
  · rw [store_within ha, List.get_eq_getElem]
    simp only [slice, List.getElem_map, List.getElem_range, UInt32.ofNat_toNat]
    congr 1
    grind
  · exact store_apart ha

theorem word_congr (h : ∀ i < 4, memory' (address + UInt32.ofNat i) = memory (address + UInt32.ofNat i)) :
    memory'.word address = memory.word address := by
  have hslice : memory'.slice address 4 = memory.slice address 4 :=
    List.map_congr_left fun i hi => h i (List.mem_range.1 hi)
  rw [word, word, hslice]

private theorem word_store (memory : Memory) (address value : UInt32) :
    (memory.store address (Bytes.littleEndian32 value)).word address = value := by
  have h : (memory.store address (Bytes.littleEndian32 value)).slice address 4 = Bytes.littleEndian32 value :=
    holds_store memory address (by simp)
  rw [word, h, Bytes.word_littleEndian32]

end Memory

namespace Machine

variable {machine : Machine} {bytes : Bytes} {operation : Operation} {operations : List Operation}

/-! ### Registers -/

theorem register_set_self (machine : Machine) (r : Register) (value : UInt32) :
    (machine.set r value).register r = value :=
  if_pos rfl

theorem register_set_of_ne (machine : Machine) {r s : Register} (h : s ≠ r) (value : UInt32) :
    (machine.set r value).register s = machine.register s :=
  if_neg h

/-! ### One step after the other -/

/-- The machine can come from one state to another. -/
def Reaches (machine machine' : Machine) : Prop := ∃ n, run? n machine = some machine'

theorem run?_add {m n : Nat} {a b c : Machine} (hab : run? m a = some b) (hbc : run? n b = some c) :
    run? (m + n) a = some c := by
  induction m generalizing a with
  | zero =>
    obtain rfl : a = b := Option.some.inj hab
    rw [Nat.zero_add]
    exact hbc
  | succ m ih =>
    rw [Nat.succ_add]
    cases hstep : a.step? with
    | none => simp [run?, hstep] at hab
    | some a' =>
      simp only [run?, hstep, Option.bind_eq_bind, Option.bind_some] at hab ⊢
      exact ih hab

theorem step?_eq (hbytes : machine.memory.Holds machine.instruction bytes) (h : Encodes bytes operation) :
    machine.step? = some ((machine.goTo (machine.instruction + UInt32.ofNat bytes.length)).apply operation) := by
  obtain ⟨rest, hslice⟩ := hbytes.slice_eq h.1
  rw [step?, hslice, h.2 rest]
  rfl

end Machine

/-- Whether the next instruction is the one that follows. -/
def Operation.isStraight : Operation → Bool
  | call _ | jump _ | ret _ => false
  | _ => true

namespace Machine

variable {machine : Machine} {bytes : Bytes} {operations : List Operation}

/-- Carry out operations, one after the other, wherever their instructions may be. -/
def carryOut (machine : Machine) (operations : List Operation) : Machine := operations.foldl apply machine

@[simp] theorem carryOut_nil (machine : Machine) : machine.carryOut [] = machine := rfl

@[simp] theorem carryOut_cons (machine : Machine) (operation : Operation) (operations : List Operation) :
    machine.carryOut (operation :: operations) = (machine.apply operation).carryOut operations := rfl

theorem carryOut_append (machine : Machine) (xs ys : List Operation) :
    machine.carryOut (xs ++ ys) = (machine.carryOut xs).carryOut ys := List.foldl_append

private theorem apply_goTo {operation : Operation} (h : operation.isStraight = true) (machine : Machine) (a : UInt32) :
    (machine.goTo a).apply operation = (machine.apply operation).goTo a := by
  cases operation with
  | call distance => exact absurd h (by simp [Operation.isStraight])
  | jump distance => exact absurd h (by simp [Operation.isStraight])
  | ret pop => exact absurd h (by simp [Operation.isStraight])
  | _ => rfl

@[simp] theorem goTo_goTo (machine : Machine) (a b : UInt32) : (machine.goTo a).goTo b = machine.goTo b := rfl

theorem goTo_jump (machine : Machine) (a distance : UInt32) :
    (machine.goTo a).apply (.jump distance) = machine.goTo (a + distance) := rfl

theorem goTo_call (machine : Machine) (a distance : UInt32) :
    (machine.goTo a).apply (.call distance) = (machine.push a).goTo (a + distance) := rfl

theorem carryOut_goTo (h : ∀ o ∈ operations, o.isStraight = true) (machine : Machine) (a : UInt32) :
    (machine.goTo a).carryOut operations = (machine.carryOut operations).goTo a := by
  induction operations generalizing machine with
  | nil => rfl
  | cons operation rest ih =>
    rw [carryOut_cons, apply_goTo (h operation (List.mem_cons_self ..)), ih fun o ho => h o (List.mem_cons_of_mem _ ho)]
    rfl

theorem instruction_carryOut (h : ∀ o ∈ operations, o.isStraight = true) (machine : Machine) :
    (machine.carryOut operations).instruction = machine.instruction := by
  have hself : machine.goTo machine.instruction = machine := rfl
  have hgoTo := carryOut_goTo h machine machine.instruction
  rw [hself] at hgoTo
  rw [hgoTo]
  rfl

/-- Straight code that stays in memory while it runs does what its operations do. -/
theorem run?_straight (machine : Machine) (hreads : Reads bytes operations)
    (hstraight : ∀ o ∈ operations, o.isStraight = true)
    (hcode : ∀ n, (machine.carryOut (operations.take n)).memory.Holds machine.instruction bytes) :
    run? operations.length machine =
      some ((machine.carryOut operations).goTo (machine.instruction + UInt32.ofNat bytes.length)) := by
  induction hreads generalizing machine with
  | nil =>
    have hstay : machine.instruction + UInt32.ofNat ([] : Bytes).length = machine.instruction := by simp
    rw [hstay]
    rfl
  | @cons bytes rest operation operations head tail ih =>
    have hhead := hstraight operation (List.mem_cons_self ..)
    -- the code is intact before the first operation, and after each of those that follow
    have hhere : machine.memory.Holds machine.instruction (bytes ++ rest) := hcode 0
    have hstep := step?_eq hhere.append.1 head
    have hrest := ih ((machine.apply operation).goTo (machine.instruction + UInt32.ofNat bytes.length))
      (fun o ho => hstraight o (List.mem_cons_of_mem _ ho)) fun n => by
        have := (hcode (n + 1)).append.2
        rw [List.take_succ_cons, carryOut_cons] at this
        rw [carryOut_goTo fun o ho => hstraight o (List.mem_cons_of_mem _ (List.mem_of_mem_take ho))]
        exact this
    have hend : machine.instruction + UInt32.ofNat bytes.length + UInt32.ofNat rest.length =
        machine.instruction + UInt32.ofNat (bytes ++ rest).length := by
      rw [List.length_append, UInt32.ofNat_add, UInt32.add_assoc]
    rw [apply_goTo hhead] at hstep
    rw [carryOut_goTo fun o ho => hstraight o (List.mem_cons_of_mem _ ho)] at hrest
    rw [List.length_cons, run?, hstep, ← hend]
    exact hrest

/-- After straight code the last instruction may go anywhere. -/
theorem run?_last (machine : Machine) {last : Operation} (hreads : Reads bytes (operations ++ [last]))
    (hstraight : ∀ o ∈ operations, o.isStraight = true)
    (hcode : ∀ n, (machine.carryOut (operations.take n)).memory.Holds machine.instruction bytes) :
    run? (operations.length + 1) machine =
      some (((machine.carryOut operations).goTo (machine.instruction + UInt32.ofNat bytes.length)).apply last) := by
  obtain ⟨front, back, rfl, hfront, hback⟩ := hreads.split
  have hrun := run?_straight machine hfront hstraight fun n => (hcode n).append.1
  have hall := hcode operations.length
  rw [List.take_length] at hall
  have hlast : ((machine.carryOut operations).goTo (machine.instruction + UInt32.ofNat front.length)).step? = _ :=
    step?_eq hall.append.2 hback.encodes
  have hend : machine.instruction + UInt32.ofNat front.length + UInt32.ofNat back.length =
      machine.instruction + UInt32.ofNat (front ++ back).length := by
    rw [List.length_append, UInt32.ofNat_add, UInt32.add_assoc]
  refine run?_add hrun ?_
  rw [run?, hlast, ← hend]
  rfl

end Machine

/-! ### Operations on the stack -/

namespace Operation

/-- Whether the operation does nothing but push, lower the top of the stack or change another register. -/
def isStack : Operation → Bool
  | pushStack _ | pushRegister _ | pushWord _ => true
  | subtract _ _ => true
  | move target _ => target != .esp
  | _ => false

/-- The number of bytes by which the operation lowers the top of the stack. -/
def depth : Operation → Nat
  | pushStack _ | pushRegister _ | pushWord _ => 4
  | subtract .esp value => value.toNat
  | _ => 0

def isBlind : Operation → Bool
  | subtract _ _ | move _ _ | pushRegister _ | pushWord _ => true
  | _ => false

theorem isStraight_of_isStack {operation : Operation} (h : operation.isStack = true) : operation.isStraight = true := by
  cases operation with
  | call | jump | ret => exact absurd h (by simp [isStack])
  | _ => rfl

end Operation

namespace Machine

/-- The number of bytes by which operations lower the top of the stack. -/
def depth (operations : List Operation) : Nat := (operations.map (·.depth)).sum

variable {machine : Machine} {operations : List Operation}

private theorem top_apply {operation : Operation} (h : operation.isStack = true) (machine : Machine) :
    (machine.apply operation).top = machine.top - UInt32.ofNat operation.depth := by
  cases operation with
  | pushStack displacement => rfl
  | pushRegister register => rfl
  | pushWord value => rfl
  | subtract register value =>
    cases register with
    | esp => simp [apply, top, set, Operation.depth]
    | _ => simp [apply, top, set, Operation.depth]
  | move target source =>
    have htarget : target ≠ .esp := by simpa [Operation.isStack] using h
    simp [apply, top, set, Operation.depth, htarget.symm]
  | _ => exact absurd h (by simp [Operation.isStack])

private theorem memory_apply {operation : Operation} (h : operation.isStack = true) {a : UInt32}
    (ha : ¬ Below machine.top operation.depth a) :
    (machine.apply operation).memory a = machine.memory a := by
  cases operation with
  | pushStack displacement => exact Memory.store_apart ha
  | pushRegister register => exact Memory.store_apart ha
  | pushWord value => exact Memory.store_apart ha
  | subtract register value => rfl
  | move target source => rfl
  | _ => exact absurd h (by simp [Operation.isStack])

theorem top_carryOut (h : ∀ o ∈ operations, o.isStack = true) (machine : Machine) :
    (machine.carryOut operations).top = machine.top - UInt32.ofNat (depth operations) := by
  induction operations generalizing machine with
  | nil => simp [depth]
  | cons operation rest ih =>
    have hhead := top_apply (h operation (List.mem_cons_self ..)) machine
    rw [carryOut_cons, ih fun o ho => h o (List.mem_cons_of_mem _ ho), hhead]
    simp only [depth, List.map_cons, List.sum_cons, UInt32.ofNat_add]
    grind

/-- Operations on the stack change nothing but the `n` bytes below the top, if they do not go deeper. -/
theorem memory_carryOut (h : ∀ o ∈ operations, o.isStack = true) {n : Nat} (hn : depth operations ≤ n) {a : UInt32}
    (ha : ¬ Below machine.top n a) : (machine.carryOut operations).memory a = machine.memory a := by
  induction operations generalizing machine n with
  | nil => rfl
  | cons operation rest ih =>
    have hhead := h operation (List.mem_cons_self ..)
    have hsum : operation.depth + depth rest ≤ n := by simpa [depth] using hn
    have hrest : ¬ Below (machine.apply operation).top (depth rest) a := by
      rw [top_apply hhead]
      exact fun hin => ha (hin.of_sub hsum)
    rw [carryOut_cons, ih (fun o ho => h o (List.mem_cons_of_mem _ ho)) (Nat.le_refl _) hrest]
    exact memory_apply hhead fun hin => ha (hin.mono (by omega))

theorem word_carryOut (machine : Machine) (h : ∀ o ∈ operations, o.isStack = true) {d : Nat}
    (hd : depth operations + d + 4 ≤ 2 ^ 32) :
    (machine.carryOut operations).memory.word (machine.top + UInt32.ofNat d) =
      machine.memory.word (machine.top + UInt32.ofNat d) := by
  refine Memory.word_congr fun i hi => memory_carryOut h (Nat.le_refl _) ?_
  rw [UInt32.add_assoc, ← UInt32.ofNat_add]
  exact not_below_add (by omega)

theorem stackWord_push_zero (machine : Machine) (value : UInt32) : (machine.push value).stackWord 0 = value := by
  have hword := machine.memory.word_store (machine.top - 4) value
  have htop : (machine.push value).top + UInt32.ofNat (4 * 0) = machine.top - 4 := by
    show machine.top - 4 + 0 = _
    rw [UInt32.add_zero]
  rw [stackWord, htop]
  exact hword

theorem stackWord_push_succ (machine : Machine) (value : UInt32) {i : Nat} (hi : 4 * i + 8 ≤ 2 ^ 32) :
    (machine.push value).stackWord (i + 1) = machine.stackWord i := by
  have haddress : (machine.push value).top + UInt32.ofNat (4 * (i + 1)) = machine.top + UInt32.ofNat (4 * i) := by
    show machine.top - 4 + UInt32.ofNat (4 * i + 4) = _
    rw [UInt32.ofNat_add]
    grind
  have hstack : ∀ o ∈ [Operation.pushWord value], o.isStack = true := by simp [Operation.isStack]
  have hword := word_carryOut machine hstack (d := 4 * i) (by simp [depth, Operation.depth]; omega)
  rw [stackWord, haddress]
  exact hword

/-- Each of the pushes that forward `args` arguments finds the next one at the same distance from the top. -/
theorem stackWord_forward (machine : Machine) {args n : Nat} (hn : n ≤ args) (hargs : 8 * args + 4 ≤ 2 ^ 32) {i : Nat}
    (hi : i < n) :
    (machine.carryOut (List.replicate n (.pushStack (UInt32.ofNat (args * 4))))).stackWord i =
      machine.stackWord (args - n + 1 + i) := by
  induction n generalizing i with
  | zero => exact absurd hi (Nat.not_lt_zero i)
  | succ n ih =>
    have hstack : ∀ o ∈ List.replicate n (Operation.pushStack (UInt32.ofNat (args * 4))), o.isStack = true := by
      intro o ho
      rw [(List.mem_replicate.1 ho).2]
      rfl
    have hdepth : depth (List.replicate n (.pushStack (UInt32.ofNat (args * 4)))) = 4 * n := by
      simp [depth, Operation.depth, Nat.mul_comm]
    have htop := top_carryOut hstack machine
    rw [List.replicate_succ', carryOut_append]
    cases i with
    | zero =>
      -- the top went down by the `n` words that were pushed before
      have haddress : machine.top - UInt32.ofNat (4 * n) + UInt32.ofNat (args * 4) =
          machine.top + UInt32.ofNat (4 * (args - n)) := by
        have hsplit : args * 4 = 4 * (args - n) + 4 * n := by omega
        rw [hsplit, UInt32.ofNat_add]
        grind
      have hword := word_carryOut machine hstack (d := 4 * (args - n)) (by omega)
      refine (stackWord_push_zero _ _).trans ?_
      rw [htop, hdepth, haddress, hword]
      have : args - (n + 1) + 1 + 0 = args - n := by omega
      rw [this]
      rfl
    | succ i =>
      refine (stackWord_push_succ _ _ (by omega)).trans ?_
      rw [ih (by omega) (by omega)]
      congr 1
      omega

/-! ### Memory that operations do not see -/

private theorem apply_store {operation : Operation} (hstack : operation.isStack = true)
    (hblind : operation.isBlind = true) {address : UInt32} {bytes : Bytes}
    (hapart : ∀ a, Within address bytes.length a → ¬ Below machine.top operation.depth a) :
    (machine.store address bytes).apply operation = (machine.apply operation).store address bytes := by
  have hpush : operation.depth = 4 → ∀ value,
      (machine.store address bytes).push value = (machine.push value).store address bytes := by
    intro hdepth value
    rw [hdepth] at hapart
    have hword : Apart address bytes.length (machine.top - 4) (Bytes.littleEndian32 value).length := hapart
    have hmemory := Memory.store_comm machine.memory hword
    exact congrArg (Machine.mk (machine.set .esp (machine.top - 4)).register machine.instruction) hmemory
  cases operation with
  | pushWord value => exact hpush rfl value
  | pushRegister register => exact hpush rfl (machine.register register)
  | subtract register value => rfl
  | move target source => rfl
  | pushStack displacement => exact absurd hblind (by simp [Operation.isBlind])
  | _ => exact absurd hstack (by simp [Operation.isStack])

/-- Operations that do not read memory do the same over other bytes, if they do not write to them. -/
theorem carryOut_store (hstack : ∀ o ∈ operations, o.isStack = true) (hblind : ∀ o ∈ operations, o.isBlind = true)
    {address : UInt32} {bytes : Bytes}
    (hapart : ∀ a, Within address bytes.length a → ¬ Below machine.top (depth operations) a) :
    (machine.store address bytes).carryOut operations = (machine.carryOut operations).store address bytes := by
  induction operations generalizing machine with
  | nil => rfl
  | cons operation rest ih =>
    have hhead := hstack operation (List.mem_cons_self ..)
    have hsum : depth (operation :: rest) = operation.depth + depth rest := by simp [depth]
    have hfirst := apply_store hhead (hblind operation (List.mem_cons_self ..)) fun a ha hin =>
      hapart a ha (hin.mono (by omega))
    rw [carryOut_cons, carryOut_cons, hfirst]
    refine ih (fun o ho => hstack o (List.mem_cons_of_mem _ ho)) (fun o ho => hblind o (List.mem_cons_of_mem _ ho)) ?_
    intro a ha hin
    rw [top_apply hhead] at hin
    exact hapart a ha (hin.of_sub (by omega))

end Machine

end LoadRemover.X86
