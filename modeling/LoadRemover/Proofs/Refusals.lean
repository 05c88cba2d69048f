import LoadRemover.Proofs.Installing

/-!
# Refused writes

A test can ask a process kept in memory to refuse a write that is still to come, by the number of writes that succeed
before it. `Target.trial` records what the test sees of its requests and writes, and this record alone tells for which
writes refusals were announced and which were refused.

What was announced was either met or is still to come (`Trial.Balanced`), and whatever else happens each use keeps it
so (`Trial.Balanced.use`). Hence refusals hit exactly the writes for which they were announced
(`Target.refuses_as_announced`).
-/

namespace LoadRemover.InMemory

/-! ### What a test sees -/

/-- What a test sees of a use, as far as writes and refusals go. -/
inductive Mark where
  /-- The write that comes after `n` more is to be refused. -/
  | announced (n : Nat)
  | written
  | refused
  | other
deriving DecidableEq

/-- A process and what a test has seen of its uses, the latest first. -/
structure Trial where
  target : Target
  marks : List Mark := []

/-- How often the refusal of the write after `index` others was announced. -/
def announcedAt (index : Nat) : List Mark → Nat
  | [] => 0
  | .announced n :: earlier => announcedAt index earlier + if earlier.count .written + n = index then 1 else 0
  | _ :: earlier => announcedAt index earlier

/-- How often a write was refused when `index` others had succeeded. -/
def refusedAt (index : Nat) : List Mark → Nat
  | [] => 0
  | .refused :: earlier => refusedAt index earlier + if earlier.count .written = index then 1 else 0
  | _ :: earlier => refusedAt index earlier

namespace Target

/-- The failure of a write that is refused. -/
def refusal (a : UInt32) : Failure := .writing a "injected write failure"

def seen (t : Target) : Use → Mark
  | .refuseWrite n => .announced n
  | .write a bytes =>
    match (t.write a bytes).1 with
    | .ok _ => .written
    | .error failure => if failure = refusal a then .refused else .other
  | _ => .other

end Target

namespace Trial

def use (trial : Trial) (one : Target.Use) : Trial := ⟨trial.target.use one, trial.target.seen one :: trial.marks⟩

/-- The number of writes that have succeeded. -/
def written (trial : Trial) : Nat := trial.marks.count .written

end Trial

namespace Target

def trial (t : Target) (uses : List Use) : Trial := uses.foldl Trial.use ⟨t, []⟩

variable {t t' : Target} {a : UInt32} {bytes : Bytes}

private theorem trial_concat (t : Target) (uses : List Use) (one : Use) :
    t.trial (uses ++ [one]) = (t.trial uses).use one :=
  List.foldl_concat ..

private theorem trial_append (t : Target) (uses more : List Use) : t.trial (uses ++ more) =
    ⟨((t.trial uses).target.trial more).target, ((t.trial uses).target.trial more).marks ++ (t.trial uses).marks⟩ := by
  induction more using List.reverseRecOn with
  | nil => rw [List.append_nil]; rfl
  | append_singleton more one ih => rw [← List.append_assoc, trial_concat, ih, trial_concat]; rfl

private theorem trial_cons (t : Target) (one : Use) (rest : List Use) : t.trial (one :: rest) =
    ⟨((t.use one).trial rest).target, ((t.use one).trial rest).marks ++ [t.seen one]⟩ := t.trial_append [one] rest

/-! ### Single writes -/

private theorem counters_of_poke? (h : t.poke? a bytes = some t') :
    t'.writes = t.writes ∧ t'.refusedWrites = t.refusedWrites := by
  rw [poke?_eq] at h
  cases hmapped : pokeIn t.mapped a.toNat bytes with
  | some mapped =>
    rw [hmapped] at h
    obtain rfl := Option.some.inj h
    exact ⟨rfl, rfl⟩
  | none =>
    rw [hmapped] at h
    obtain ⟨blocks, -, rfl⟩ := Option.map_eq_some_iff.1 h
    exact ⟨rfl, rfl⟩

/-- There is memory to write to exactly if there is memory to be shown. -/
private theorem poke?_eq_none_iff_peek? : t.poke? a bytes = none ↔ t.peek? a bytes.length = none := by
  rw [poke?_eq_none_iff, pokeIn_eq_none_iff, peek?, Option.map_eq_none_iff, List.find?_eq_none]
  simp only [Bool.not_eq_true]

private theorem write_refused (hlive : t.exited = false) (hdue : t.writes ∈ t.refusedWrites) (a : UInt32)
    (bytes : Bytes) :
    t.write a bytes = (.error (refusal a), { t with refusedWrites := t.refusedWrites.erase t.writes }) := by
  unfold write
  rw [if_neg (by rw [hlive]; exact Bool.false_ne_true), if_pos hdue]
  rfl

private theorem writing_ne_refusal (a : UInt32) {reason : String} (h : reason ≠ "injected write failure") :
    Failure.writing a reason ≠ refusal a := fun hsame => h (Failure.writing.inj hsame).2

/-- The ways a write can go. -/
inductive Written (t : Target) (a : UInt32) (bytes : Bytes) : Except Failure Unit × Target → Prop where
  | refused (live : t.exited = false) (due : t.writes ∈ t.refusedWrites) :
      Written t a bytes (.error (refusal a), { t with refusedWrites := t.refusedWrites.erase t.writes })
  | done {t' : Target} (live : t.exited = false) (free : t.writes ∉ t.refusedWrites)
      (mapped : t.peek? a bytes.length ≠ none) (writes : t'.writes = t.writes + 1)
      (queue : t'.refusedWrites = t.refusedWrites) : Written t a bytes (.ok (), t')
  | failed {reason : String} (other : reason ≠ "injected write failure")
      (free : t.exited = false → t.writes ∉ t.refusedWrites ∧ t.peek? a bytes.length = none) :
      Written t a bytes (.error (.writing a reason), t)

private theorem written_write (t : Target) (a : UInt32) (bytes : Bytes) : t.Written a bytes (t.write a bytes) := by
  cases hlive : t.exited with
  | true =>
    have hwrite : t.write a bytes = (.error (.writing a "process has exited"), t) := if_pos hlive
    rw [hwrite]
    exact .failed (by decide) fun h => absurd (hlive.symm.trans h) nofun
  | false =>
    by_cases hdue : t.writes ∈ t.refusedWrites
    · rw [write_refused hlive hdue]
      exact .refused hlive hdue
    unfold write
    rw [if_neg (by rw [hlive]; exact Bool.false_ne_true), if_neg hdue]
    cases hpoke : t.poke? a bytes with
    | none => exact .failed (by decide) fun _ => ⟨hdue, poke?_eq_none_iff_peek?.1 hpoke⟩
    | some t' =>
      obtain ⟨hwrites, hqueue⟩ := counters_of_poke? hpoke
      have hmapped : t.peek? a bytes.length ≠ none := fun hnone =>
        absurd (poke?_eq_none_iff_peek?.2 hnone) (by rw [hpoke]; exact nofun)
      exact .done hlive hdue hmapped (congrArg (· + 1) hwrites) hqueue

private theorem write_eq_refusal_iff (hlive : t.exited = false) (a : UInt32) (bytes : Bytes) :
    (t.write a bytes).1 = .error (refusal a) ↔ t.writes ∈ t.refusedWrites := by
  have hwritten := t.written_write a bytes
  generalize t.write a bytes = result at hwritten
  cases hwritten with
  | refused _ due => exact ⟨fun _ => due, fun _ => rfl⟩
  | done _ free => exact ⟨nofun, fun hdue => absurd hdue free⟩
  | failed other free =>
    exact ⟨fun h => absurd (Except.error.inj h) (writing_ne_refusal a other), fun hdue => absurd hdue (free hlive).1⟩

private theorem write_eq_ok_iff (hlive : t.exited = false) (hfree : t.writes ∉ t.refusedWrites) (a : UInt32)
    (bytes : Bytes) :
    (t.write a bytes).1 = .ok () ↔ t.peek? a bytes.length ≠ none := by
  have hwritten := t.written_write a bytes
  generalize t.write a bytes = result at hwritten
  cases hwritten with
  | refused _ due => exact absurd due hfree
  | done _ _ mapped => exact ⟨fun _ => mapped, fun _ => rfl⟩
  | failed _ free => exact ⟨nofun, fun hmapped => absurd (free hlive).2 hmapped⟩

/-! ### Single uses -/

/-- What a use does to the number of writes and to the refusals to come. -/
inductive Counts (t : Target) : Mark → Target → Prop where
  | announced (n : Nat) {t' : Target} (writes : t'.writes = t.writes)
      (queue : t'.refusedWrites = t.refusedWrites ++ [t.writes + n]) : Counts t (.announced n) t'
  | written {t' : Target} (free : t.writes ∉ t.refusedWrites) (writes : t'.writes = t.writes + 1)
      (queue : t'.refusedWrites = t.refusedWrites) : Counts t .written t'
  | refused {t' : Target} (due : t.writes ∈ t.refusedWrites) (writes : t'.writes = t.writes)
      (queue : t'.refusedWrites = t.refusedWrites.erase t.writes) : Counts t .refused t'
  | other {t' : Target} (writes : t'.writes = t.writes) (queue : t'.refusedWrites = t.refusedWrites) :
      Counts t .other t'

private theorem counts_use (t : Target) (one : Use) : t.Counts (t.seen one) (t.use one) := by
  cases one with
  | refuseWrite n => exact .announced n rfl rfl
  | write a bytes =>
    have hwritten := t.written_write a bytes
    rw [seen, use]
    generalize t.write a bytes = result at hwritten
    cases hwritten with
    | refused live due =>
      simp only [↓reduceIte]
      exact .refused due rfl rfl
    | done live free _ writes queue => exact .written free writes queue
    | failed other =>
      simp only [if_neg (writing_ne_refusal a other)]
      exact .other rfl rfl
  | allocate size =>
    rw [use]
    unfold Target.allocate
    split
    · exact .other rfl rfl
    · exact .other rfl rfl
  | free a =>
    rw [use]
    unfold Target.free
    split
    · exact .other rfl rfl
    · exact .other rfl rfl
  | poke a bytes =>
    rw [use]
    cases hpoke : t.poke? a bytes with
    | none => exact .other rfl rfl
    | some t' =>
      obtain ⟨hwrites, hqueue⟩ := counters_of_poke? hpoke
      exact .other hwrites hqueue
  | kill => exact .other rfl rfl
  | refuseReads refuse => exact .other rfl rfl

end Target

/-! ### The balance of refusals -/

namespace Trial

variable {trial : Trial}

private theorem written_push (target : Target) {mark : Mark} (h : mark ≠ .written) (marks : List Mark) :
    written ⟨target, mark :: marks⟩ = marks.count .written := List.count_cons_of_ne h

/-- Of the refusals that were announced each was met, or it is still to come and was not missed. -/
structure Balanced (trial : Trial) : Prop where
  writes : trial.target.writes = trial.written
  balance : ∀ index, announcedAt index trial.marks =
    refusedAt index trial.marks + trial.target.refusedWrites.count index
  ahead : ∀ index ∈ trial.target.refusedWrites, trial.written ≤ index

private theorem Balanced.use (h : trial.Balanced) (one : Target.Use) : (trial.use one).Balanced := by
  have hcounts := trial.target.counts_use one
  unfold Trial.use
  generalize trial.target.use one = t' at hcounts
  generalize trial.target.seen one = mark at hcounts
  obtain ⟨hwrites, hbalance, hahead⟩ := h
  unfold written at hwrites hahead
  cases hcounts with
  | announced n writes queue =>
    have hcount := written_push t' (show Mark.announced n ≠ .written from nofun) trial.marks
    refine ⟨by rw [hcount]; exact writes.trans hwrites, fun index => ?_, fun index hindex => ?_⟩
    · have hold := hbalance index
      simp only [announcedAt, refusedAt, queue, List.count_append, List.count_singleton, hwrites, beq_iff_eq]
      omega
    · simp only [queue, hwrites, List.mem_append, List.mem_singleton] at hindex
      rw [hcount]
      rcases hindex with hold | rfl
      · exact hahead index hold
      · omega
  | written free writes queue =>
    have hcount : written ⟨t', .written :: trial.marks⟩ = trial.marks.count .written + 1 := List.count_cons_self
    refine ⟨?_, fun index => ?_, fun index hindex => ?_⟩
    · rw [hcount]
      exact writes.trans (congrArg (· + 1) hwrites)
    · simp only [announcedAt, refusedAt, queue]
      exact hbalance index
    · -- the present number is not among those to come, so all of them are greater
      rw [queue] at hindex
      have hge := hahead index hindex
      have hne : index ≠ trial.marks.count .written := fun hsame => free (by rwa [hwrites, ← hsame])
      rw [hcount]
      omega
  | refused due writes queue =>
    have hcount := written_push t' (show Mark.refused ≠ .written from nofun) trial.marks
    refine ⟨by rw [hcount]; exact writes.trans hwrites, fun index => ?_, fun index hindex => ?_⟩
    · have hold := hbalance index
      have htaken := (List.perm_cons_erase due).count_eq index
      rw [List.count_cons, hwrites] at htaken
      simp only [announcedAt, refusedAt, queue, hwrites, beq_iff_eq] at htaken ⊢
      omega
    · rw [queue] at hindex
      rw [hcount]
      exact hahead index (List.mem_of_mem_erase hindex)
  | other writes queue =>
    have hcount := written_push t' (show Mark.other ≠ .written from nofun) trial.marks
    refine ⟨by rw [hcount]; exact writes.trans hwrites, fun index => ?_, fun index hindex => ?_⟩
    · simp only [announcedAt, refusedAt, queue]
      exact hbalance index
    · rw [queue] at hindex
      rw [hcount]
      exact hahead index hindex

/-- After more than `index` writes all refusals that were announced for this number have been met. -/
private theorem Balanced.met (h : trial.Balanced) {index : Nat} (hpassed : index < trial.written) :
    index ∉ trial.target.refusedWrites ∧ refusedAt index trial.marks = announcedAt index trial.marks := by
  have hgone : index ∉ trial.target.refusedWrites := fun hindex => absurd (h.ahead index hindex) (by omega)
  have hbalance := h.balance index
  rw [List.count_eq_zero.2 hgone] at hbalance
  exact ⟨hgone, by omega⟩

/-- What has become of a refusal that was announced for the write after `n` more, when `more` writes have succeeded
since. -/
structure Fate (before after : Trial) (n more : Nat) : Prop where
  written : after.written = before.written + more
  /-- Only a refused write takes such a refusal from those to come, and only after exactly `n` more writes. -/
  taken : ∀ one, (after.use one).target.refusedWrites.count (before.written + n) <
    after.target.refusedWrites.count (before.written + n) → more = n ∧ after.target.seen one = .refused
  /-- After one write more it has been met: none such is to come, and more writes were refused there than refusals had
  been announced before this one. -/
  passed : n < more → before.written + n ∉ after.target.refusedWrites ∧
    announcedAt (before.written + n) before.marks < refusedAt (before.written + n) after.marks

end Trial

private theorem announcedAt_lt {index n : Nat} {earlier : List Mark} (h : earlier.count .written + n = index)
    (later : List Mark) : announcedAt index earlier < announcedAt index (later ++ .announced n :: earlier) := by
  induction later with
  | nil =>
    rw [List.nil_append, announcedAt, if_pos h]
    omega
  | cons mark later ih =>
    rw [List.cons_append]
    cases mark with
    | announced m =>
      rw [announcedAt]
      omega
    | written => exact ih
    | refused => exact ih
    | other => exact ih

namespace Target

variable {origin t t' : Target}

/-! ### Any number of uses -/

private theorem balanced_trial (hwrites : origin.writes = 0) (hnone : origin.refusedWrites = []) (past : List Use) :
    (origin.trial past).Balanced := by
  induction past using List.reverseRecOn with
  | nil =>
    refine ⟨hwrites, fun index => ?_, fun index hindex => ?_⟩
    · show 0 = 0 + origin.refusedWrites.count index
      rw [hnone]
      rfl
    · change index ∈ origin.refusedWrites at hindex
      rw [hnone] at hindex
      cases hindex
  | append_singleton past one ih =>
    rw [trial_concat]
    exact ih.use one

private theorem marks_announced (origin : Target) (past : List Use) (n : Nat) (uses : List Use) :
    (origin.trial (past ++ .refuseWrite n :: uses)).marks =
      (((origin.trial past).target.refuseWrite n).trial uses).marks ++ .announced n :: (origin.trial past).marks := by
  rw [trial_append, trial_cons, List.append_assoc]
  rfl

/-- Only a refused write takes a refusal, and it takes one for the present number of writes. -/
private theorem Counts.taken {mark : Mark} (h : t.Counts mark t') {index : Nat}
    (hless : t'.refusedWrites.count index < t.refusedWrites.count index) : t.writes = index ∧ mark = .refused := by
  cases h with
  | announced n _ queue =>
    rw [queue, List.count_append] at hless
    omega
  | written _ _ queue =>
    rw [queue] at hless
    omega
  | other _ queue =>
    rw [queue] at hless
    omega
  | refused due _ queue =>
    refine ⟨?_, rfl⟩
    by_contra hother
    rw [queue, List.count_erase_of_ne (Ne.symm hother)] at hless
    omega

private theorem fate_trial (hwrites : origin.writes = 0) (hnone : origin.refusedWrites = []) (past : List Use) (n : Nat)
    (uses : List Use) : (origin.trial past).Fate (origin.trial (past ++ .refuseWrite n :: uses)) n
      (((origin.trial past).target.refuseWrite n).trial uses).written := by
  have hafter := balanced_trial hwrites hnone (past ++ .refuseWrite n :: uses)
  have hmarks := marks_announced origin past n uses
  have hwritten : (origin.trial (past ++ .refuseWrite n :: uses)).written =
      (origin.trial past).written + (((origin.trial past).target.refuseWrite n).trial uses).written := by
    have hne : Mark.announced n ≠ .written := nofun
    rw [Trial.written, hmarks, List.count_append, List.count_cons_of_ne hne, Nat.add_comm]
    rfl
  refine ⟨hwritten, fun one hless => ?_, fun hpassed => ?_⟩
  · obtain ⟨hindex, hrefused⟩ := (counts_use _ one).taken hless
    rw [hafter.writes, hwritten] at hindex
    exact ⟨by omega, hrefused⟩
  · have hless : (origin.trial past).written + n < (origin.trial (past ++ .refuseWrite n :: uses)).written := by omega
    obtain ⟨hgone, hmet⟩ := hafter.met hless
    refine ⟨hgone, ?_⟩
    rw [hmet, hmarks]
    exact announcedAt_lt rfl _

/-- As many writes in a row are refused as refusals are to come for the present number, wherever they go; and they
change nothing but the refusals to come. -/
private theorem refused_in_a_row (hlive : t.exited = false) {attempts : List (UInt32 × Bytes)}
    (hcount : attempts.length ≤ t.refusedWrites.count t.writes) :
    (∀ mark ∈ (t.trial (attempts.map fun x => .write x.1 x.2)).marks, mark = .refused) ∧
      ∃ queue, (t.trial (attempts.map fun x => .write x.1 x.2)).target = { t with refusedWrites := queue } ∧
        queue.count t.writes + attempts.length = t.refusedWrites.count t.writes := by
  induction attempts generalizing t with
  | nil => exact ⟨nofun, t.refusedWrites, rfl, rfl⟩
  | cons attempt rest ih =>
    rw [List.length_cons] at hcount
    have hdue : t.writes ∈ t.refusedWrites := List.count_pos_iff.1 (by omega)
    have hwrite := write_refused hlive hdue attempt.1 attempt.2
    have hseen : t.seen (.write attempt.1 attempt.2) = .refused := by
      rw [seen, hwrite]
      exact if_pos rfl
    have hused : t.use (.write attempt.1 attempt.2) = { t with refusedWrites := t.refusedWrites.erase t.writes } :=
      congrArg Prod.snd hwrite
    have herase : (t.refusedWrites.erase t.writes).count t.writes = t.refusedWrites.count t.writes - 1 :=
      List.count_erase_self
    obtain ⟨hmarks, queue, htarget, hqueue⟩ :=
      ih (t := { t with refusedWrites := t.refusedWrites.erase t.writes }) hlive (by rw [herase]; omega)
    rw [List.map_cons, trial_cons, hseen, hused]
    refine ⟨fun mark hmark => ?_, queue, htarget, ?_⟩
    · rcases List.mem_append.1 hmark with hlater | hfirst
      · exact hmarks mark hlater
      · exact List.mem_singleton.1 hfirst
    · rw [herase] at hqueue
      change queue.count t.writes + rest.length = _ at hqueue
      rw [List.length_cons]
      omega

end Target

/-- What a test can rely on about refusals at any time. -/
structure Trial.AsAnnounced (trial : Trial) : Prop where
  announced : ∀ n, (trial.target.refuseWrite n).refusedWrites = trial.target.refusedWrites ++ [trial.written + n]
  /-- No refusal to come has been missed. -/
  ahead : ∀ index ∈ trial.target.refusedWrites, trial.written ≤ index
  /-- A write is refused exactly if a refusal is to come for the present number of writes, wherever it goes. -/
  refused : ∀ a bytes, trial.target.exited = false →
    ((trial.target.write a bytes).1 = .error (Target.refusal a) ↔ trial.written ∈ trial.target.refusedWrites)
  /-- A refused write takes one of these. -/
  taken : ∀ a bytes, (trial.target.write a bytes).1 = .error (Target.refusal a) →
    trial.target.refusedWrites.Perm (trial.written :: (trial.target.write a bytes).2.refusedWrites)
  /-- Any other write takes none. -/
  kept : ∀ a bytes, (trial.target.write a bytes).1 ≠ .error (Target.refusal a) →
    (trial.target.write a bytes).2.refusedWrites = trial.target.refusedWrites
  /-- Each refusal that was announced was met once, or it is to come. -/
  balance : ∀ index, announcedAt index trial.marks =
    refusedAt index trial.marks + trial.target.refusedWrites.count index
  /-- A write has succeeded only after all refusals for the number before it were met, each by a write of its own. -/
  met : ∀ index < trial.written, refusedAt index trial.marks = announcedAt index trial.marks
  /-- As many writes in a row as there are refusals to come for the present number are refused, and then a write to
  mapped memory succeeds. -/
  in_a_row : ∀ attempts : List (UInt32 × Bytes), trial.target.exited = false →
    attempts.length = trial.target.refusedWrites.count trial.written →
    (∀ mark ∈ (trial.target.trial (attempts.map fun x => .write x.1 x.2)).marks, mark = .refused) ∧
      ∀ a bytes, ((trial.target.trial (attempts.map fun x => .write x.1 x.2)).target.write a bytes).1 = .ok () ↔
        trial.target.peek? a bytes.length ≠ none

namespace Target

variable {origin : Target}

/-- **Refusals hit the writes for which they were announced.** Whatever a test has done to a process, none of the
refusals to come has been missed; a write is refused exactly if one is to come for the present number of writes, and it
takes one of these; and a refusal that is announced now for the write after `n` more can be taken only after exactly
`n` more writes, and has been taken before one write more succeeds. -/
theorem refuses_as_announced (hwrites : origin.writes = 0) (hnone : origin.refusedWrites = []) (past : List Use) :
    (origin.trial past).AsAnnounced ∧
      ∀ n uses, (origin.trial past).Fate (origin.trial (past ++ .refuseWrite n :: uses)) n
        (((origin.trial past).target.refuseWrite n).trial uses).written := by
  have hbalanced := balanced_trial hwrites hnone past
  refine ⟨?_, fate_trial hwrites hnone past⟩
  generalize origin.trial past = trial at hbalanced
  refine ⟨fun n => ?_, hbalanced.ahead, fun a bytes hlive => ?_, fun a bytes hrefused => ?_, fun a bytes hother => ?_,
    hbalanced.balance, fun index hindex => (hbalanced.met hindex).2, fun attempts hlive hlength => ?_⟩
  · rw [← hbalanced.writes]
    rfl
  · rw [← hbalanced.writes]
    exact write_eq_refusal_iff hlive a bytes
  · have hwritten := trial.target.written_write a bytes
    rw [← hbalanced.writes]
    generalize trial.target.write a bytes = result at hwritten hrefused
    cases hwritten with
    | refused _ due => exact List.perm_cons_erase due
    | done => cases hrefused
    | failed other => exact absurd (Except.error.inj hrefused) (writing_ne_refusal a other)
  · have hwritten := trial.target.written_write a bytes
    generalize trial.target.write a bytes = result at hwritten hother
    cases hwritten with
    | refused => exact absurd rfl hother
    | done _ _ _ _ queue => exact queue
    | failed => rfl
  · rw [← hbalanced.writes] at hlength
    obtain ⟨hmarks, queue, htarget, hqueue⟩ := refused_in_a_row hlive hlength.le
    refine ⟨hmarks, fun a bytes => ?_⟩
    have hfree : trial.target.writes ∉ queue := List.count_eq_zero.1 (by omega)
    rw [htarget]
    exact write_eq_ok_iff (t := { trial.target with refusedWrites := queue }) hlive hfree a bytes

/-- A refusal for the second write from now and one for the present write: the first attempt is refused although it
goes to memory that is not there; the next one to such memory fails without counting. -/
theorem refuses_as_announced_mixed :
    let origin : Target := { info := ⟨7, "mc2.exe"⟩, mapped := [.zeros 0x400000 0x100] }
    let past : List Use := [.refuseWrite 1, .refuseWrite 0, .write 0x300000 [1], .write 0x300000 [1],
      .write 0x400000 [1], .refuseWrite 0, .write 0x400001 [2], .write 0x400001 [2], .write 0x400001 [2]]
    (origin.trial past).marks.reverse =
        [.announced 1, .announced 0, .refused, .other, .written, .announced 0, .refused, .refused, .written] ∧
      (origin.trial past).AsAnnounced := by
  intro origin past
  exact ⟨by decide +kernel, (refuses_as_announced rfl rfl past).1⟩

end Target

end LoadRemover.InMemory
