import LoadRemover.Proofs.Journal
import LoadRemover.Target.InMemory

/-!
# What a list of watched values reports

Each pass over a list reads the values in their order, up to the first that cannot be read (`Swept`). It takes in
exactly the values that it has read and leaves the others as they were (`Orderly`). The world may change between two
passes, so what the values in a list are told about is the history of what was read there. Induction on the passes
gives all reports of a value: the changes along its history (`WatchList.reports_every_change`).
-/

namespace LoadRemover

/-! ### Changes along a list -/

section Changes

variable {α : Type} [DecidableEq α]

/-- The pairs of neighbours that differ, in their order. -/
def changesAlong (values : List α) : List (Change α) :=
  ((values.zip values.tail).filter fun one => one.1 ≠ one.2).map fun one => ⟨one.1, one.2⟩

private theorem changesAlong_cons_cons (old new : α) (rest : List α) :
    changesAlong (old :: new :: rest) = (if old = new then [] else [⟨old, new⟩]) ++ changesAlong (new :: rest) := by
  unfold changesAlong
  by_cases hsame : old = new <;> simp [hsame]

/-- The first of the changes after a value is what the next value read there reports. -/
private theorem changesAlong_observe (watched : Watched α) (value : α) (later : List α) :
    changesAlong (watched.current.toList ++ value :: later) =
      (watched.observe value).2.toList ++ changesAlong (value :: later) := by
  obtain ⟨address, current⟩ := watched
  cases current with
  | none => rfl
  | some old =>
    rw [Option.toList_some, List.cons_append, List.nil_append, changesAlong_cons_cons]
    by_cases hsame : old = value <;> simp [Watched.observe, hsame]

/-- Each change begins with the value with which the one before has ended. -/
private theorem isChain_changesAlong (values : List α) : (changesAlong values).IsChain fun c c' => c.new = c'.old := by
  have hfrom : ∀ (a : α) (rest : List α), (∀ c ∈ (changesAlong (a :: rest)).head?, c.old = a) ∧
      (changesAlong (a :: rest)).IsChain fun c c' => c.new = c'.old := by
    intro a rest
    induction rest generalizing a with
    | nil => exact ⟨nofun, .nil⟩
    | cons b rest ih =>
      obtain ⟨hhead, hchain⟩ := ih b
      rw [changesAlong_cons_cons]
      by_cases hsame : a = b
      · subst hsame
        rw [if_pos rfl]
        exact ⟨hhead, hchain⟩
      · rw [if_neg hsame]
        refine ⟨?_, List.isChain_cons.2 ⟨fun c hc => (hhead c hc).symm, hchain⟩⟩
        rintro c ⟨⟩
        rfl
  cases values with
  | nil => exact .nil
  | cons a rest => exact (hfrom a rest).2

private theorem ne_of_mem_changesAlong {values : List α} {c : Change α} (hc : c ∈ changesAlong values) :
    c.old ≠ c.new := by
  obtain ⟨one, hone, rfl⟩ := List.mem_map.1 hc
  simpa using (List.mem_filter.1 hone).2

end Changes

/-! ### One pass -/

/-- The ways in which a pass over a list can go: the accesses, the values read and what it gives. -/
inductive Swept {κ α : Type} [DecidableEq α] (layout : Layout α) :
    WatchList κ α → List Access → List α → Sweep κ α → Prop where
  | nil : Swept layout [] [] [] ⟨[], [], none⟩
  | failed (key : κ) (watched : Watched α) (rest : WatchList κ α) (failure : Failure) :
      Swept layout ((key, watched) :: rest) [.read watched.address layout.width (.error failure)] []
        ⟨(key, watched) :: rest, [], some failure⟩
  | read (key : κ) (watched : Watched α) (bytes : Bytes) {rest : WatchList κ α} {accesses : List Access}
      {values : List α} {sweep : Sweep κ α} (more : Swept layout rest accesses values sweep) :
      Swept layout ((key, watched) :: rest) (.read watched.address layout.width (.ok bytes) :: accesses)
        (layout.decode bytes :: values)
        ⟨(key, (watched.observe (layout.decode bytes)).1) :: sweep.list,
          ((watched.observe (layout.decode bytes)).2.map (key, ·)).toList ++ sweep.changes, sweep.failure⟩

/-- The value that an access has read. -/
def Access.value? {α : Type} (layout : Layout α) : Access → Option α
  | .read _ _ (.ok bytes) => some (layout.decode bytes)
  | _ => none

namespace WatchList

variable {σ π κ α : Type} [DecidableEq α]

/-- Every pass goes in one of the ways. -/
private theorem swept_updateAll (platform : Platform σ π) (process : π) (layout : Layout α) (list : WatchList κ α)
    (s : Traced (Journal σ)) : ∃ accesses values,
      (list.updateAll (Journal.platform platform) process layout s).2.world.accesses = s.world.accesses ++ accesses ∧
        Swept layout list accesses values (list.updateAll (Journal.platform platform) process layout s).1 := by
  induction list generalizing s with
  | nil => exact ⟨[], [], (List.append_nil _).symm, .nil⟩
  | cons entry rest ih =>
    obtain ⟨key, watched⟩ := entry
    have hread : ((Journal.platform platform).read process watched.address layout.width).outcome s =
        let outcome := (platform.read process watched.address layout.width).outcome ⟨s.world.world, s.log⟩
        (outcome.1, ⟨⟨outcome.2.world, s.world.accesses ++ [.read watched.address layout.width outcome.1]⟩,
          outcome.2.log⟩) := rfl
    rw [updateAll_cons, hread]
    generalize (platform.read process watched.address layout.width).outcome ⟨s.world.world, s.log⟩ = outcome
    obtain ⟨answer, after⟩ := outcome
    cases answer with
    | error failure => exact ⟨_, _, rfl, .failed key watched rest failure⟩
    | ok bytes =>
      obtain ⟨accesses, values, haccesses, hswept⟩ := ih
        ⟨⟨after.world, s.world.accesses ++ [.read watched.address layout.width (.ok bytes)]⟩, after.log⟩
      refine ⟨_, _, haccesses.trans ?_, .read key watched bytes hswept⟩
      rw [List.append_assoc]
      rfl

/-- What the values of a list report, one after the other, when new values are read there. -/
def reports (list : WatchList κ α) (values : List α) : List (κ × Option (Change α)) :=
  (list.zip values).map fun one => (one.1.1, (one.1.2.observe one.2).2)

/-- What the value at a position of a list reports. -/
def report (list : WatchList κ α) (values : List α) (j : Nat) : Option (Change α) :=
  (list.reports values)[j]?.bind (·.2)

private theorem report_eq {list : WatchList κ α} {j : Nat} {key : κ} {watched : Watched α}
    (h : list[j]? = some (key, watched))
    (values : List α) : list.report values j = values[j]?.bind fun value => (watched.observe value).2 := by
  rw [report, reports, List.getElem?_map, List.zip, List.getElem?_zipWith, h]
  cases values[j]? <;> rfl

end WatchList

namespace Swept

variable {κ α : Type} [DecidableEq α] {layout : Layout α} {list : WatchList κ α} {accesses : List Access}
  {values : List α} {sweep : Sweep κ α}

private theorem values_eq (h : Swept layout list accesses values sweep) :
    accesses.filterMap (·.value? layout) = values := by
  induction h with
  | nil => rfl
  | failed key watched rest failure => rfl
  | read key watched bytes more ih =>
    rw [List.filterMap_cons, ih]
    rfl

private theorem length_le (h : Swept layout list accesses values sweep) : values.length ≤ list.length := by
  induction h with
  | nil => exact Nat.le_refl _
  | failed => exact Nat.zero_le _
  | read key watched bytes more ih => exact Nat.succ_le_succ ih

private theorem failure_eq_none_iff (h : Swept layout list accesses values sweep) :
    sweep.failure = none ↔ values.length = list.length := by
  induction h with
  | nil => simp
  | failed => simp
  | read key watched bytes more ih => simpa using ih

private theorem changes_eq (h : Swept layout list accesses values sweep) :
    sweep.changes = (list.reports values).filterMap fun one => one.2.map (one.1, ·) := by
  induction h with
  | nil => rfl
  | failed key watched rest failure => rfl
  | read key watched bytes more ih =>
    rw [ih, WatchList.reports, WatchList.reports, List.zip_cons_cons, List.map_cons, List.filterMap_cons]
    cases (watched.observe (layout.decode bytes)).2 <;> rfl

private theorem accesses_eq (h : Swept layout list accesses values sweep) : ∃ answers : List Bytes,
    values = answers.map layout.decode ∧
      accesses = (list.zip answers).map (fun one => .read one.1.2.address layout.width (.ok one.2)) ++
        (sweep.failure.toList.zip (list.drop answers.length)).map fun one =>
          .read one.2.2.address layout.width (.error one.1) := by
  induction h with
  | nil => exact ⟨[], rfl, rfl⟩
  | failed key watched rest failure => exact ⟨[], rfl, rfl⟩
  | read key watched bytes more ih =>
    obtain ⟨answers, hvalues, haccesses⟩ := ih
    refine ⟨bytes :: answers, by rw [List.map_cons, hvalues], ?_⟩
    rw [haccesses]
    rfl

/-- What was read replaces the value from before, and what was not read leaves it. -/
private theorem getElem?_list (h : Swept layout list accesses values sweep) (j : Nat) :
    sweep.list[j]? = list[j]?.map fun entry =>
      (entry.1, { entry.2 with current := values[j]?.or entry.2.current }) := by
  induction h generalizing j with
  | nil => rfl
  | failed key watched rest failure =>
    simp
  | read key watched bytes more ih =>
    cases j with
    | zero => rfl
    | succ j => exact ih j

private theorem keys_eq (h : Swept layout list accesses values sweep) : sweep.list.map (·.1) = list.map (·.1) := by
  induction h with
  | nil => rfl
  | failed => rfl
  | read key watched bytes more ih => rw [List.map_cons, ih, List.map_cons]

private theorem key_mem (h : Swept layout list accesses values sweep) {one : κ × Change α}
    (hone : one ∈ sweep.changes) :
    one.1 ∈ list.map (·.1) := by
  induction h with
  | nil => exact nomatch hone
  | failed => exact nomatch hone
  | read key watched bytes more ih =>
    rw [List.map_cons]
    rcases List.mem_append.1 hone with hfirst | hrest
    · obtain ⟨change, -, rfl⟩ := Option.map_eq_some_iff.1 (Option.mem_toList.1 hfirst)
      exact List.mem_cons_self
    · exact List.mem_cons_of_mem _ (ih hrest)

/-- Among values with different keys, the reports with one of the keys are those of the one value. -/
private theorem changes_of_key [DecidableEq κ] (h : Swept layout list accesses values sweep)
    (hkeys : (list.map (·.1)).Nodup) {j : Nat} {key : κ} {watched : Watched α} (hj : list[j]? = some (key, watched)) :
    (sweep.changes.filterMap fun one => if one.1 = key then some one.2 else none) = (list.report values j).toList := by
  induction h generalizing j with
  | nil => simp at hj
  | failed => simp [WatchList.report, WatchList.reports]
  | @read key' watched' bytes rest accesses values sweep more ih =>
    obtain ⟨hfresh, hrest⟩ := List.nodup_cons.1 hkeys
    rw [List.filterMap_append]
    cases j with
    | zero =>
      obtain ⟨rfl, rfl⟩ : key' = key ∧ watched' = watched := by simpa using hj
      -- no later value has the key of the first
      have hnone : (sweep.changes.filterMap fun one => if one.1 = key' then some one.2 else none) = [] := by
        refine List.filterMap_eq_nil_iff.2 fun one hone => if_neg ?_
        rintro rfl
        exact hfresh (more.key_mem hone)
      rw [hnone, List.append_nil, WatchList.report_eq hj, List.getElem?_cons_zero, Option.bind_some]
      cases (watched'.observe (layout.decode bytes)).2 <;> simp
    | succ j =>
      have hother : key' ≠ key := by
        rintro rfl
        exact hfresh (List.mem_map.2 ⟨_, List.mem_of_getElem? hj, rfl⟩)
      have hnone : ((((watched'.observe (layout.decode bytes)).2.map (key', ·)).toList).filterMap
          fun one => if one.1 = key then some one.2 else none) = [] := by
        cases (watched'.observe (layout.decode bytes)).2 <;> simp [hother]
      rw [hnone, List.nil_append, ih hrest hj]
      rfl

end Swept

/-! ### A run of passes -/

/-- A pass over a list, in a process as it is at that moment. -/
structure Pass (σ π κ α : Type) where
  list : WatchList κ α
  process : π
  state : Traced σ

section Runs

variable {σ π κ α : Type} [DecidableEq α] (platform : Platform σ π) (layout : Layout α)

namespace Pass

variable (pass : Pass σ π κ α)

def sweep : Sweep κ α := (pass.list.updateAll platform pass.process layout pass.state).1

def accesses : List Access :=
  platform.accesses (fun platform => pass.list.updateAll platform pass.process layout) pass.state

/-- The values that the pass reads, in their order. -/
def values : List α := (pass.accesses platform layout).filterMap (·.value? layout)

private theorem swept : Swept layout pass.list (pass.accesses platform layout) (pass.values platform layout)
    (pass.sweep platform layout) := by
  obtain ⟨accesses, values, haccesses, hswept⟩ :=
    pass.list.swept_updateAll platform pass.process layout (Journal.start pass.state)
  have hsame := (Journal.erases platform).updateAll pass.process layout pass.list (Journal.start pass.state)
  have hsweep : pass.sweep platform layout =
      (pass.list.updateAll (Journal.platform platform) pass.process layout (Journal.start pass.state)).1 :=
    congrArg Prod.fst hsame
  have hlisted : pass.accesses platform layout = accesses := haccesses
  rw [Pass.values, hlisted, hsweep, hswept.values_eq]
  exact hswept

end Pass

/-- Passes over a list, one after the other, each in the process as it is by then. -/
def WatchList.passes (list : WatchList κ α) : List (π × Traced σ) → List (Pass σ π κ α)
  | [] => []
  | (process, state) :: rest =>
    let pass : Pass σ π κ α := ⟨list, process, state⟩
    pass :: passes (pass.sweep platform layout).list rest

/-- What the passes read at a position of the list. -/
def Pass.history (passes : List (Pass σ π κ α)) (j : Nat) : List α :=
  passes.filterMap fun pass => (pass.values platform layout)[j]?

variable {platform layout}
variable {list : WatchList κ α} {worlds : List (π × Traced σ)} {j : Nat} {key : κ} {watched : Watched α}

private theorem WatchList.keys_of_mem_passes {pass : Pass σ π κ α} (h : pass ∈ list.passes platform layout worlds) :
    pass.list.map (·.1) = list.map (·.1) := by
  induction worlds generalizing list with
  | nil => exact nomatch h
  | cons world rest ih =>
    rcases List.mem_cons.1 h with rfl | hrest
    · rfl
    · exact (ih hrest).trans (Pass.swept platform layout _).keys_eq

/-- Before each pass a value is the one read last. -/
private theorem WatchList.getElem?_of_passes {before after : List (Pass σ π κ α)} {pass : Pass σ π κ α}
    (h : list.passes platform layout worlds = before ++ pass :: after) (hj : list[j]? = some (key, watched)) :
    pass.list[j]? = some (key,
      { watched with current := (watched.current.toList ++ Pass.history platform layout before j).getLast? }) := by
  induction before generalizing list worlds watched with
  | nil =>
    cases worlds with
    | nil => simp [passes] at h
    | cons world rest =>
      obtain ⟨rfl, -⟩ := List.cons.inj h
      rw [hj]
      obtain ⟨address, current⟩ := watched
      cases current <;> rfl
  | cons first before ih =>
    cases worlds with
    | nil => simp [passes] at h
    | cons world rest =>
      obtain ⟨rfl, hrest⟩ := List.cons.inj h
      have hnext := (Pass.swept platform layout ⟨list, world.1, world.2⟩).getElem?_list j
      rw [hj, Option.map_some] at hnext
      rw [ih hrest hnext, Pass.history, Pass.history, List.filterMap_cons]
      cases (Pass.values platform layout ⟨list, world.1, world.2⟩)[j]? with
      | none => rfl
      | some value =>
        simp only [Option.some_or, Option.toList_some]
        rw [List.getLast?_append_of_ne_nil _ (List.cons_ne_nil _ _)]
        rfl

/-- All that a value reports in a run are the changes along what was read there. -/
private theorem WatchList.reports_of_passes (hj : list[j]? = some (key, watched)) :
    ((list.passes platform layout worlds).filterMap fun pass => pass.list.report (pass.values platform layout) j) =
      changesAlong (watched.current.toList ++ Pass.history platform layout (list.passes platform layout worlds) j) := by
  induction worlds generalizing list watched with
  | nil =>
    cases watched.current <;> rfl
  | cons world rest ih =>
    have hnext := (Pass.swept platform layout ⟨list, world.1, world.2⟩).getElem?_list j
    rw [hj, Option.map_some] at hnext
    have hrest := ih hnext
    rw [passes, Pass.history, List.filterMap_cons, List.filterMap_cons, hrest, report_eq hj]
    cases (Pass.values platform layout ⟨list, world.1, world.2⟩)[j]? with
    | none => rfl
    | some value =>
      refine Eq.trans ?_ (changesAlong_observe watched value _).symm
      simp only [Option.bind_some, Option.some_or, Option.toList_some]
      cases (watched.observe value).2 <;> rfl

variable (platform layout) in
/-- A pass that reads the values in their order, all of them if it does not fail and otherwise those before the one
that cannot be read. It takes in what it has read and leaves the other values as they were, and the values that it has
read report in their order. -/
structure Pass.Faithful (pass : Pass σ π κ α) : Prop where
  reads : ∃ answers : List Bytes, pass.values platform layout = answers.map layout.decode ∧
    pass.accesses platform layout =
      (pass.list.zip answers).map (fun one => .read one.1.2.address layout.width (.ok one.2)) ++
        ((pass.sweep platform layout).failure.toList.zip (pass.list.drop answers.length)).map fun one =>
          .read one.2.2.address layout.width (.error one.1)
  length_le : (pass.values platform layout).length ≤ pass.list.length
  complete : (pass.sweep platform layout).failure = none ↔ (pass.values platform layout).length = pass.list.length
  list : ∀ j : Nat, (pass.sweep platform layout).list[j]? = pass.list[j]?.map fun (entry : κ × Watched α) =>
    (entry.1, { entry.2 with current := (pass.values platform layout)[j]?.or entry.2.current })
  changes : (pass.sweep platform layout).changes =
    (pass.list.reports (pass.values platform layout)).filterMap fun one => one.2.map (one.1, ·)

private theorem Pass.faithful (platform : Platform σ π) (layout : Layout α) (pass : Pass σ π κ α) :
    pass.Faithful platform layout :=
  have h := pass.swept platform layout
  ⟨h.accesses_eq, h.length_le, h.failure_eq_none_iff, h.getElem?_list, h.changes_eq⟩

/-- Among values with different keys, all reports of a run with one of the keys are those of the one value. -/
private theorem WatchList.changes_of_passes [DecidableEq κ] (hkeys : (list.map (·.1)).Nodup)
    (hj : list[j]? = some (key, watched)) :
    ((list.passes platform layout worlds).flatMap fun pass => (pass.sweep platform layout).changes).filterMap
        (fun one => if one.1 = key then some one.2 else none) =
      (list.passes platform layout worlds).filterMap fun pass => pass.list.report (pass.values platform layout) j := by
  rw [List.filterMap_flatMap, List.filterMap_eq_flatMap_toList]
  refine List.flatMap_congr fun pass hpass => ?_
  obtain ⟨before, after, hsplit⟩ := List.append_of_mem hpass
  have hhere := getElem?_of_passes hsplit hj
  have hsame : (pass.list.map (·.1)).Nodup := by rwa [keys_of_mem_passes hpass]
  exact (pass.swept platform layout).changes_of_key hsame hhere

end Runs

/-! ### Integers -/

private theorem Bytes.value_lt (bytes : Bytes) : bytes.value < 256 ^ bytes.length := by
  induction bytes with
  | nil => simp [value]
  | cons b rest ih =>
    have hb := b.toNat_lt
    rw [value, List.length_cons, Nat.pow_succ]
    omega

/-- The bytes are digits, the lowest first, and a signed type counts the upper half of the numbers from below. -/
private theorem IntegerType.decode_eq (type : IntegerType) {bytes : Bytes} (h : bytes.length = type.width) :
    type.layout.decode bytes =
      if type.isSigned ∧ 256 ^ type.width ≤ 2 * bytes.value then (bytes.value : Int) - 256 ^ type.width
      else bytes.value := by
  have hlt := bytes.value_lt
  have htake : bytes.take type.width = bytes := List.take_of_length_le (Nat.le_of_eq h)
  rw [h] at hlt
  simp only [layout, htake]
  cases type <;> simp [isSigned, width, Int.bmod_def] at hlt ⊢ <;> split <;> omega

/-! ### All reports -/

namespace WatchList

variable {σ π κ : Type} [DecidableEq κ]

/-- **Nothing is lost or reported twice.** A list of integers of one type is read again and again, while the memory
changes in between and reads may fail anywhere. Each pass does what it should. The reports of a value, over all
passes, are the pairs of different neighbours among the values read there, after the one known before, so that each
begins with what the one before has ended with. A pass that reads a value reports it against the one read there last,
however many passes have not come so far. If no two values have the same key, those are the reports with its key. -/
theorem reports_every_change (platform : Platform σ π) (type : IntegerType) (list : WatchList κ Int)
    (worlds : List (π × Traced σ)) :
    let passes := list.passes platform type.layout worlds
    (∀ bytes : Bytes, bytes.length = type.width → type.layout.decode bytes =
        if type.isSigned ∧ 256 ^ type.width ≤ 2 * bytes.value then (bytes.value : Int) - 256 ^ type.width
        else bytes.value) ∧
      (∀ pass ∈ passes, pass.Faithful platform type.layout) ∧
      ∀ j key watched, list[j]? = some (key, watched) →
        let changes := changesAlong (watched.current.toList ++ Pass.history platform type.layout passes j)
        (passes.filterMap fun pass => pass.list.report (pass.values platform type.layout) j) = changes ∧
          changes.IsChain (fun c c' => c.new = c'.old) ∧ (∀ c ∈ changes, c.old ≠ c.new) ∧
          (∀ before pass after, passes = before ++ pass :: after →
            let last := (watched.current.toList ++ Pass.history platform type.layout before j).getLast?
            pass.list[j]? = some (key, { watched with current := last }) ∧
              ∀ value, (pass.values platform type.layout)[j]? = some value →
                pass.list.report (pass.values platform type.layout) j =
                  last.bind fun old => if old = value then none else some ⟨old, value⟩) ∧
          ((list.map (·.1)).Nodup →
            (passes.flatMap fun pass => (pass.sweep platform type.layout).changes).filterMap
              (fun one => if one.1 = key then some one.2 else none) = changes) := by
  intro passes
  refine ⟨fun bytes h => type.decode_eq h, fun pass _ => pass.faithful platform type.layout, ?_⟩
  intro j key watched hj changes
  have hreports : (passes.filterMap fun pass => pass.list.report (pass.values platform type.layout) j) = changes :=
    reports_of_passes hj
  refine ⟨hreports, isChain_changesAlong _, fun c hc => ne_of_mem_changesAlong hc, ?_, ?_⟩
  · intro before pass after hsplit last
    have hhere : pass.list[j]? = some (key, { watched with current := last }) := getElem?_of_passes hsplit hj
    refine ⟨hhere, fun value hvalue => ?_⟩
    rw [report_eq hhere, hvalue, Option.bind_some]
    cases hlast : last <;> rfl
  · intro hkeys
    exact (changes_of_passes hkeys hj).trans hreports

open InMemory in
/-- The second pass can read the first value only; the third one reports what the second has missed. -/
theorem reports_every_change_missed :
    let memory (bytes : Bytes) : Handle × Traced World :=
      (⟨0, 1⟩, { world := { targets := [{ info := ⟨1, ""⟩, mapped := [.ofBytes 0x400000 bytes] }] } })
    let list : WatchList Bool Int := add (add [] false 0x400000) true 0x400001
    let passes := list.passes World.platform IntegerType.i8.layout [memory [1, 2], memory [5], memory [6, 0xFF]]
    (passes.map fun pass => (pass.sweep World.platform IntegerType.i8.layout).failure.isSome) = [false, true, false] ∧
      (passes.flatMap fun pass => (pass.sweep World.platform IntegerType.i8.layout).changes).filterMap
        (fun one => if one.1 = true then some one.2 else none) = [⟨2, -1⟩] := by
  intro memory list passes
  obtain ⟨-, -, hreports⟩ := reports_every_change World.platform .i8 list [memory [1, 2], memory [5], memory [6, 0xFF]]
  obtain ⟨-, -, -, -, hkey⟩ := hreports 1 true _ rfl
  have hhistory : Pass.history World.platform IntegerType.i8.layout passes 1 = [2, -1] := by decide +kernel
  refine ⟨by decide +kernel, (hkey (by decide)).trans ?_⟩
  rw [hhistory]
  rfl

end WatchList

end LoadRemover
