import LoadRemover.Proofs.Custody

/-!
# Looking through a list

`Platform.findTarget` opens the listed processes of a fitting name one after the other and takes the first that is
admitted when it has its turn (`Platform.findTarget_eq_some`). If there is none, or no list, it finds nothing
(`Platform.findTarget_eq_none`). A name fits if it contains the other one, the case of Latin letters aside
(`nameContains_iff`).
-/

namespace LoadRemover

variable {σ π : Type}

/-! ### Names -/

private theorem foldLetter_eq_toLower (c : Char) : foldLetter c = c.toLower := by
  unfold foldLetter Char.toLower
  by_cases h : 'A' ≤ c ∧ c ≤ 'Z'
  · have hval : c.val ≥ 'A'.val ∧ c.val ≤ 'Z'.val := h
    have hupper : c.toNat ≤ 90 := h.2
    rw [if_pos h, dif_pos hval]
    apply Char.ext
    apply UInt32.toNat_inj.1
    have hvalid : (c.toNat + 32).isValidChar := Or.inl (by omega)
    have hlower : (c.val + ('a'.val - 'A'.val)).toNat = c.toNat + 32 := by
      rw [UInt32.toNat_add, Nat.mod_eq_of_lt]
      · rfl
      · exact Nat.lt_of_le_of_lt (Nat.add_le_add_right hupper 32) (by decide)
    rw [hlower, show Char.ofNat (c.toNat + 32) = Char.ofNatAux (c.toNat + 32) hvalid from dif_pos hvalid]
    rfl
  · have hval : ¬ (c.val ≥ 'A'.val ∧ c.val ≤ 'Z'.val) := h
    rw [if_neg h, dif_neg hval]

private theorem occursIn_iff (needle text : List Char) : occursIn needle text = true ↔ needle <:+: text := by
  induction text with
  | nil => rw [occursIn, List.isEmpty_iff, List.infix_nil]
  | cons c text ih => rw [occursIn, Bool.or_eq_true, ih, List.isPrefixOf_iff_prefix, List.infix_cons_iff]

/-- The name of the process contains the other one when both are in lower case. -/
def ProcessInfo.Fits (info : ProcessInfo) (name : String) : Prop :=
  name.toList.map Char.toLower <:+: info.name.toList.map Char.toLower

private theorem nameContains_iff {info : ProcessInfo} {name : String} :
    info.nameContains name = true ↔ info.Fits name := by
  have hfold : foldLetter = Char.toLower := funext foldLetter_eq_toLower
  rw [ProcessInfo.nameContains, occursIn_iff, hfold]
  exact Iff.rfl

instance (info : ProcessInfo) (name : String) : Decidable (info.Fits name) := decidable_of_iff _ nameContains_iff

example : (⟨7, "ÉMC2.exe"⟩ : ProcessInfo).Fits "mC2" ∧ ¬ (⟨7, "ÉMC2.exe"⟩ : ProcessInfo).Fits "émc2" := by decide

private theorem filter_nameContains (infos : List ProcessInfo) (name : String) :
    infos.filter (·.nameContains name) = infos.filter (·.Fits name) := by
  refine List.filter_congr fun info _ => ?_
  rw [Bool.eq_iff_iff, nameContains_iff, decide_eq_true_iff]

/-! ### Processes in turn -/

namespace Platform

variable {platform : Platform σ π}

/-- A candidate is what an admitted process gives. -/
theorem openAndProbe_eq_some {info : ProcessInfo} {candidate : Candidate π} {s : Traced σ} :
    (platform.openAndProbe info s).1 = some candidate ↔ platform.Admits info candidate s := by
  have hlooks : ∀ process, platform.Looks process fun _ => True := fun _ =>
    ⟨Action.Ensures.trivial, Attempt.Ensures.trivial, Attempt.Ensures.trivial, fun _ _ => Attempt.Ensures.trivial⟩
  have hcustody : platform.Custody (fun _ => True) fun _ _ => True :=
    ⟨Attempt.Ensures.trivial, fun _ => Attempt.Ensures.trivial, fun _ => Action.Ensures.trivial, hlooks⟩
  constructor
  · exact hcustody.admits_of_openAndProbe trivial
  · rintro ⟨hopened, haccepted⟩
    unfold openAndProbe
    rw [Action.bind_apply, Attempt.outcome_bind, Action.bind_apply, hopened]
    simp only [haccepted]
    rfl

private theorem openAndProbe_eq_none {info : ProcessInfo} {s : Traced σ} :
    (platform.openAndProbe info s).1 = none ↔ ∀ candidate, ¬ platform.Admits info candidate s := by
  simp only [← openAndProbe_eq_some, Option.eq_none_iff_forall_not_mem, Option.mem_def]

variable (platform)

/-- The state in which the next process has its turn, when these were opened and looked at. -/
def reached (infos : List ProcessInfo) (s : Traced σ) : Traced σ :=
  infos.foldl (fun s info => (platform.openAndProbe info s).2) s

/-- None of the processes is admitted when it has its turn. -/
def Rejects : List ProcessInfo → Traced σ → Prop
  | [], _ => True
  | info :: rest, s => (∀ candidate, ¬ platform.Admits info candidate s) ∧ Rejects rest (platform.openAndProbe info s).2

variable {platform}

theorem firstCandidate_cons (info : ProcessInfo) (rest : List ProcessInfo) (s : Traced σ) :
    (platform.firstCandidate (info :: rest) s).1 =
      match (platform.openAndProbe info s).1 with
      | some candidate => some candidate
      | none => (platform.firstCandidate rest (platform.openAndProbe info s).2).1 := by
  rw [firstCandidate, Action.bind_apply]
  cases (platform.openAndProbe info s).1 <;> rfl

private theorem firstCandidate_eq_none {infos : List ProcessInfo} {s : Traced σ} :
    (platform.firstCandidate infos s).1 = none ↔ platform.Rejects infos s := by
  induction infos generalizing s with
  | nil => exact iff_of_true rfl trivial
  | cons info rest ih =>
    rw [firstCandidate_cons, Rejects, ← openAndProbe_eq_none, ← ih]
    cases (platform.openAndProbe info s).1 with
    | none => exact (and_iff_right rfl).symm
    | some candidate => exact iff_of_false nofun fun h => nomatch h.1

/-- The first process is taken that is admitted when it has its turn. -/
private theorem firstCandidate_eq_some {infos : List ProcessInfo} {candidate : Candidate π} {s : Traced σ} :
    (platform.firstCandidate infos s).1 = some candidate ↔ ∃ before info after, infos = before ++ info :: after ∧
      platform.Rejects before s ∧ platform.Admits info candidate (platform.reached before s) := by
  -- the first process is the admitted one itself, or it is rejected and the others follow in the state it leaves
  induction infos generalizing s with
  | nil => exact iff_of_false nofun fun ⟨before, _, _, h, _⟩ => by cases before <;> cases h
  | cons first rest ih =>
    rw [firstCandidate_cons]
    constructor
    · intro h
      cases hfirst : (platform.openAndProbe first s).1 with
      | some found =>
        rw [hfirst] at h
        obtain rfl := Option.some.inj h
        exact ⟨[], first, rest, rfl, trivial, openAndProbe_eq_some.1 hfirst⟩
      | none =>
        rw [hfirst] at h
        obtain ⟨before, info, after, rfl, hrejects, hadmits⟩ := ih.1 h
        exact ⟨first :: before, info, after, rfl, ⟨openAndProbe_eq_none.1 hfirst, hrejects⟩, hadmits⟩
    · rintro ⟨before, info, after, hlist, hrejects, hadmits⟩
      cases before with
      | nil =>
        obtain ⟨rfl, rfl⟩ := List.cons.inj hlist
        have hfirst : (platform.openAndProbe first s).1 = some candidate := openAndProbe_eq_some.2 hadmits
        rw [hfirst]
      | cons _ before =>
        obtain ⟨rfl, rfl⟩ := List.cons.inj hlist
        rw [openAndProbe_eq_none.2 hrejects.1]
        exact ih.2 ⟨before, info, after, rfl, hrejects.2, hadmits⟩

theorem findTarget_eq (name : String) (s : Traced σ) :
    (platform.findTarget name s).1 =
      match (platform.processes.outcome s).1 with
      | .ok infos => (platform.firstCandidate (infos.filter (·.Fits name)) (platform.processes.outcome s).2).1
      | .error _ => none := by
  unfold findTarget
  rw [Action.bind_apply]
  cases (platform.processes.outcome s).1 with
  | error failure => rfl
  | ok infos =>
    simp only [filter_nameContains]

/-- The first process in the list is taken that has a fitting name and is admitted when it has its turn. -/
theorem findTarget_eq_some {name : String} {s : Traced σ} {candidate : Candidate π} :
    (platform.findTarget name s).1 = some candidate ↔ ∃ infos before info after,
      (platform.processes.outcome s).1 = .ok infos ∧ infos.filter (·.Fits name) = before ++ info :: after ∧
      platform.Rejects before (platform.processes.outcome s).2 ∧
      platform.Admits info candidate (platform.reached before (platform.processes.outcome s).2) := by
  rw [findTarget_eq]
  cases (platform.processes.outcome s).1 with
  | error failure => exact iff_of_false nofun fun ⟨_, _, _, _, h, _⟩ => nomatch h
  | ok infos =>
    constructor
    · intro h
      obtain ⟨before, info, after, hsplit, hrejects, hadmits⟩ := firstCandidate_eq_some.1 h
      exact ⟨infos, before, info, after, rfl, hsplit, hrejects, hadmits⟩
    · rintro ⟨_, before, info, after, ⟨⟩, hsplit, hrejects, hadmits⟩
      exact firstCandidate_eq_some.2 ⟨before, info, after, hsplit, hrejects, hadmits⟩

/-- Nothing is found if there is no list, or if no process in it is admitted. -/
theorem findTarget_eq_none {name : String} {s : Traced σ} :
    (platform.findTarget name s).1 = none ↔ (∃ failure, (platform.processes.outcome s).1 = .error failure) ∨
      ∃ infos, (platform.processes.outcome s).1 = .ok infos ∧
        platform.Rejects (infos.filter (·.Fits name)) (platform.processes.outcome s).2 := by
  rw [findTarget_eq]
  cases (platform.processes.outcome s).1 with
  | error failure => exact iff_of_true rfl (.inl ⟨failure, rfl⟩)
  | ok infos =>
    refine firstCandidate_eq_none.trans ⟨fun h => .inr ⟨infos, rfl, h⟩, ?_⟩
    rintro (⟨failure, ⟨⟩⟩ | ⟨_, ⟨⟩, h⟩)
    exact h

end Platform

end LoadRemover
