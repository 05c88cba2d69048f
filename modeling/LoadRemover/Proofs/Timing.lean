import Mathlib.Algebra.BigOperators.Group.Finset.Basic
import Mathlib.Data.Finset.Prod
import LoadRemover.Timer

/-!
# How the times of a timer add up

A timer takes in values of the loading signal, each at an instant, and at any time the last of them tells whether the
game is loading (`recordedAt`). The loading time is the total length of the maximal intervals in which it is, and the
time of the game is the rest of the real time (`LoadTimer.times_add_up`).

* Instants are whole numbers, so the maximal intervals of a condition together are as long as there are instants at
  which it holds (`sum_maximalIntervals`).
* Taking in a value takes no time (`LoadTimer.loadingTime_setLoading`), and up to the next one the loading time grows
  with the clock or stands still (`LoadTimer.loadingTime_later`). Induction on the values gives the loading time
  between any two instants (`LoadTimer.loadingTime_setAll`).
-/

namespace LoadRemover

private theorem Duration.between_add {a b c : Int} (hab : a ≤ b) (hbc : b ≤ c) :
    Duration.between a c = Duration.between a b + Duration.between b c := by
  change (c - a).toNat = (b - a).toNat + (c - b).toNat
  omega

/-! ### Maximal intervals -/

/-- The instants from `a` on, up to but not at `b`. -/
def instants (a b : Int) : Finset Int := (Finset.range (Duration.between a b)).image fun n : Nat => a + n

/-- The number of instants from `a` on, up to but not at `b`, at which the condition holds. -/
def timeOf (holds : Int → Bool) (a b : Int) : Duration := ((instants a b).filter (holds ·)).card

/-- The condition holds from `a` on, up to but not at `b`, and inside the bounds `lo` and `hi` it holds no longer on
either side. -/
def IsMaximal (holds : Int → Bool) (lo hi a b : Int) : Prop :=
  lo ≤ a ∧ a < b ∧ b ≤ hi ∧ (∀ t ∈ instants a b, holds t = true) ∧ (a = lo ∨ holds (a - 1) = false) ∧
    (b = hi ∨ holds b = false)

instance (holds : Int → Bool) (lo hi a b : Int) : Decidable (IsMaximal holds lo hi a b) :=
  inferInstanceAs (Decidable (_ ∧ _ ∧ _ ∧ _ ∧ _ ∧ _))

/-- The maximal intervals between `lo` and `hi` in which the condition holds. -/
def maximalIntervals (holds : Int → Bool) (lo hi : Int) : Finset (Int × Int) :=
  (instants lo hi ×ˢ instants (lo + 1) (hi + 1)).filter fun i => IsMaximal holds lo hi i.1 i.2

section Intervals

variable {holds : Int → Bool} {lo hi a b a' b' t : Int}

private theorem mem_instants : t ∈ instants a b ↔ a ≤ t ∧ t < b := by
  simp only [instants, Duration.between, Finset.mem_image, Finset.mem_range]
  constructor
  · rintro ⟨n, hn, rfl⟩
    omega
  · rintro ⟨hat, htb⟩
    exact ⟨(t - a).toNat, by omega, by omega⟩

private theorem card_instants (a b : Int) : (instants a b).card = Duration.between a b := by
  have hinjective : Function.Injective fun n : Nat => a + (n : Int) := fun m n h =>
    Int.ofNat_inj.1 (Int.add_left_cancel h)
  rw [instants, Finset.card_image_of_injective _ hinjective, Finset.card_range]

private theorem mem_maximalIntervals {i : Int × Int} :
    i ∈ maximalIntervals holds lo hi ↔ IsMaximal holds lo hi i.1 i.2 := by
  rw [maximalIntervals, Finset.mem_filter, Finset.mem_product, mem_instants, mem_instants]
  refine and_iff_right_of_imp ?_
  rintro ⟨hlo, hlt, hhi, -⟩
  omega

/-- An instant at which the condition holds lies in a maximal interval. -/
private theorem exists_isMaximal (hlo : lo ≤ t) (hhi : t < hi) (h : holds t = true) :
    ∃ a b, IsMaximal holds lo hi a b ∧ a ≤ t ∧ t < b := by
  -- the condition is followed in both directions, up to where it fails or to a bound
  have hleft : ∀ t, lo ≤ t → ∃ a, lo ≤ a ∧ a ≤ t ∧ (∀ s, a ≤ s → s < t → holds s = true) ∧
      (a = lo ∨ holds (a - 1) = false) := by
    intro t ht
    induction t, ht using Int.leInduction with
    | base => exact ⟨lo, le_refl _, le_refl _, fun s _ _ => by omega, .inl rfl⟩
    | succ t ht ih =>
      cases hholds : holds t with
      | true =>
        obtain ⟨a, hlo, hle, hall, hend⟩ := ih
        refine ⟨a, hlo, by omega, fun s has hst => ?_, hend⟩
        rcases eq_or_lt_of_le (Int.lt_add_one_iff.1 hst) with rfl | hlt
        · exact hholds
        · exact hall s has hlt
      | false => exact ⟨t + 1, by omega, le_refl _, fun s _ _ => by omega, .inr (by rwa [add_sub_cancel_right])⟩
  have hright : ∀ t, t ≤ hi → ∃ b, t ≤ b ∧ b ≤ hi ∧ (∀ s, t ≤ s → s < b → holds s = true) ∧
      (b = hi ∨ holds b = false) := by
    intro t ht
    induction t, ht using Int.leInductionDown with
    | base => exact ⟨hi, le_refl _, le_refl _, fun s _ _ => by omega, .inl rfl⟩
    | pred t ht ih =>
      cases hholds : holds (t - 1) with
      | true =>
        obtain ⟨b, hle, hhi, hall, hend⟩ := ih
        refine ⟨b, by omega, hhi, fun s hts hsb => ?_, hend⟩
        rcases eq_or_lt_of_le hts with rfl | hlt
        · exact hholds
        · exact hall s (by omega) hsb
      | false => exact ⟨t - 1, le_refl _, by omega, fun s _ _ => by omega, .inr hholds⟩
  obtain ⟨a, hloa, hat, hbefore, hfirst⟩ := hleft t hlo
  obtain ⟨b, htb, hbhi, hafter, hlast⟩ := hright t (by omega)
  have hlt : t < b := by
    refine lt_of_le_of_ne htb ?_
    rintro rfl
    rcases hlast with rfl | hfalse
    · exact lt_irrefl _ hhi
    · exact nomatch h.symm.trans hfalse
  refine ⟨a, b, ⟨hloa, by omega, hbhi, fun s hs => ?_, hfirst, hlast⟩, hat, hlt⟩
  obtain ⟨has, hsb⟩ := mem_instants.1 hs
  rcases lt_or_ge s t with hst | hst
  · exact hbefore s has hst
  · exact hafter s hst hsb

/-- Maximal intervals that have an instant in common begin and end together. -/
private theorem IsMaximal.unique (h : IsMaximal holds lo hi a b) (h' : IsMaximal holds lo hi a' b') (ht : a ≤ t ∧ t < b)
    (ht' : a' ≤ t ∧ t < b') : a = a' ∧ b = b' := by
  have hbounds : ∀ {a b a' b'}, IsMaximal holds lo hi a b → IsMaximal holds lo hi a' b' → a ≤ t ∧ t < b →
      a' ≤ t ∧ t < b' → a ≤ a' ∧ b' ≤ b := by
    rintro a b a' b' ⟨hlo, -, hhi, -, hfirst, hlast⟩ ⟨hlo', -, hhi', hinside', -, -⟩ ht ht'
    constructor
    · by_contra hlt
      have hin := hinside' (a - 1) (mem_instants.2 (by omega))
      rcases hfirst with rfl | hfalse
      · omega
      · exact nomatch hin.symm.trans hfalse
    · by_contra hlt
      have hin := hinside' b (mem_instants.2 (by omega))
      rcases hlast with rfl | hfalse
      · omega
      · exact nomatch hin.symm.trans hfalse
  have hle := hbounds h h' ht ht'
  have hge := hbounds h' h ht' ht
  omega

/-- Together the maximal intervals are as long as there are instants at which the condition holds. -/
private theorem sum_maximalIntervals (holds : Int → Bool) (lo hi : Int) :
    ∑ i ∈ maximalIntervals holds lo hi, Duration.between i.1 i.2 = timeOf holds lo hi := by
  have hunion : (instants lo hi).filter (holds ·) =
      (maximalIntervals holds lo hi).biUnion fun i => instants i.1 i.2 := by
    ext t
    simp only [Finset.mem_filter, Finset.mem_biUnion, mem_instants, mem_maximalIntervals]
    constructor
    · rintro ⟨⟨hlo, hhi⟩, h⟩
      obtain ⟨a, b, hmaximal, hin⟩ := exists_isMaximal hlo hhi h
      exact ⟨(a, b), hmaximal, hin⟩
    · rintro ⟨⟨a, b⟩, ⟨hlo, -, hhi, hinside, -⟩, hin⟩
      exact ⟨by omega, hinside t (mem_instants.2 hin)⟩
  have hdisjoint : (maximalIntervals holds lo hi : Set (Int × Int)).PairwiseDisjoint fun i => instants i.1 i.2 := by
    intro i hi j hj hne
    refine Finset.disjoint_left.2 fun t hti htj => hne ?_
    obtain ⟨hfirst, hlast⟩ := (mem_maximalIntervals.1 hi).unique (mem_maximalIntervals.1 hj) (mem_instants.1 hti)
      (mem_instants.1 htj)
    exact Prod.ext hfirst hlast
  rw [timeOf, hunion, Finset.card_biUnion hdisjoint]
  exact Finset.sum_congr rfl fun i _ => (card_instants i.1 i.2).symm

private theorem timeOf_congr {holds' : Int → Bool} (h : ∀ t, a ≤ t → t < b → holds t = holds' t) :
    timeOf holds a b = timeOf holds' a b := by
  refine congrArg Finset.card (Finset.filter_congr fun t ht => ?_)
  obtain ⟨hat, htb⟩ := mem_instants.1 ht
  rw [h t hat htb]

private theorem timeOf_const (value : Bool) (a b : Int) :
    timeOf (fun _ => value) a b = if value then Duration.between a b else 0 := by
  unfold timeOf
  cases value with
  | true => simpa using card_instants a b
  | false => simp

private theorem timeOf_add (holds : Int → Bool) {c : Int} (hab : a ≤ b) (hbc : b ≤ c) :
    timeOf holds a c = timeOf holds a b + timeOf holds b c := by
  have hunion : instants a c = instants a b ∪ instants b c := by
    ext t
    rw [Finset.mem_union, mem_instants, mem_instants, mem_instants]
    omega
  have hdisjoint : Disjoint (instants a b) (instants b c) := by
    refine Finset.disjoint_left.2 fun t hleft hright => ?_
    rw [mem_instants] at hleft hright
    omega
  rw [timeOf, hunion, Finset.filter_union, Finset.card_union_of_disjoint (Finset.disjoint_filter_filter hdisjoint)]
  rfl

private theorem timeOf_add_not (holds : Int → Bool) (a b : Int) :
    timeOf holds a b + timeOf (! holds ·) a b = Duration.between a b := by
  have hcard := Finset.card_filter_add_card_filter_not (s := instants a b) (holds · = true)
  rw [card_instants] at hcard
  simpa [timeOf] using hcard

private theorem timeOf_le (holds : Int → Bool) (a b : Int) : timeOf holds a b ≤ Duration.between a b :=
  le_of_le_of_eq (Nat.le_add_right _ _) (timeOf_add_not holds a b)

end Intervals

/-! ### Values and their instants -/

/-- The value recorded last at an instant, where `first` was recorded before all others. Of several values at one
instant the last one counts. -/
def recordedFrom (first : Bool) (calls : List (Bool × Int)) (t : Int) : Bool :=
  ((calls.filter (·.2 ≤ t)).getLast?.map (·.1)).getD first

/-- The value recorded last at an instant. In the beginning the game is not loading. -/
abbrev recordedAt : List (Bool × Int) → Int → Bool := recordedFrom false

/-- The instants do not decrease, none of them is before `start`, and none is after `now`. -/
def Timely : Int → List (Bool × Int) → Int → Prop
  | start, [], now => start ≤ now
  | start, (_, t) :: rest, now => start ≤ t ∧ Timely t rest now

section Recorded

variable {start now t u : Int} {calls more : List (Bool × Int)} {first value : Bool}

private theorem Timely.le (h : Timely start calls now) : start ≤ now := by
  induction calls generalizing start with
  | nil => exact h
  | cons call rest ih => exact le_trans h.1 (ih h.2)

private theorem Timely.le_of_mem (h : Timely start calls now) {call : Bool × Int} (hcall : call ∈ calls) :
    start ≤ call.2 ∧ call.2 ≤ now := by
  induction calls generalizing start with
  | nil => exact nomatch hcall
  | cons first rest ih =>
    rcases List.mem_cons.1 hcall with rfl | hcall
    · exact ⟨h.1, h.2.le⟩
    · exact ⟨le_trans h.1 (ih h.2 hcall).1, (ih h.2 hcall).2⟩

private theorem recordedFrom_cons (h : Timely u calls now) (first value : Bool) (t : Int) :
    recordedFrom first ((value, u) :: calls) t = if u ≤ t then recordedFrom value calls t else first := by
  unfold recordedFrom
  by_cases hut : u ≤ t
  · rw [if_pos hut, List.filter_cons, if_pos (decide_eq_true hut), List.getLast?_cons]
    cases (calls.filter (·.2 ≤ t)).getLast? <;> rfl
  · -- the later values are recorded later still
    have hnone : ((value, u) :: calls).filter (·.2 ≤ t) = [] := by
      refine List.filter_eq_nil_iff.2 fun call hcall => ?_
      have hle : u ≤ call.2 := by
        rcases List.mem_cons.1 hcall with rfl | hcall
        · exact le_refl _
        · exact (h.le_of_mem hcall).1
      rw [decide_eq_true_iff]
      omega
    rw [if_neg hut, hnone]
    rfl

/-- After all of the first values only the others count, and the last of the first ones before them. -/
private theorem recordedFrom_append (h : ∀ call ∈ calls, call.2 ≤ t) :
    recordedFrom first (calls ++ more) t = recordedFrom ((calls.map (·.1)).getLast?.getD first) more t := by
  have hall : calls.filter (·.2 ≤ t) = calls := List.filter_eq_self.2 fun call hcall => decide_eq_true (h call hcall)
  unfold recordedFrom
  rw [List.filter_append, hall, List.getLast?_append, List.getLast?_map]
  cases (more.filter (·.2 ≤ t)).getLast? <;> rfl

end Recorded

namespace LoadTimer

variable {timer : LoadTimer} {start now t : Int} {calls more : List (Bool × Int)}

/-- The timer after several values, each at its instant. -/
def setAll (timer : LoadTimer) (calls : List (Bool × Int)) : LoadTimer :=
  calls.foldl (fun timer call => (timer.setLoading call.1 call.2).1) timer

/-! ### One value -/

/-- A load in progress began at `t` or before. -/
def Begun (timer : LoadTimer) (t : Int) : Prop := ∀ since ∈ timer.loadingSince, since ≤ t

private theorem isLoading_setLoading (timer : LoadTimer) (loading : Bool) (t : Int) :
    (timer.setLoading loading t).1.isLoading = loading := by
  obtain ⟨started, since, total, loads⟩ := timer
  cases since <;> cases loading <;> rfl

private theorem changed_setLoading (timer : LoadTimer) (loading : Bool) (t : Int) :
    (timer.setLoading loading t).2 = true ↔ loading ≠ timer.isLoading := by
  obtain ⟨started, since, total, loads⟩ := timer
  cases since <;> cases loading <;> simp [LoadTimer.setLoading, isLoading]

private theorem loads_setLoading (timer : LoadTimer) (loading : Bool) (t : Int) :
    (timer.setLoading loading t).1.loads =
      timer.loads + if (timer.isLoading, loading) = (false, true) then 1 else 0 := by
  obtain ⟨started, since, total, loads⟩ := timer
  cases since <;> cases loading <;> rfl

private theorem Begun.setLoading (h : timer.Begun t) (loading : Bool) : (timer.setLoading loading t).1.Begun t := by
  obtain ⟨started, since, total, loads⟩ := timer
  cases since <;> cases loading
  · exact h
  · rintro _ ⟨⟩
    exact le_refl t
  · exact nofun
  · exact h

private theorem loadingTime_setLoading (timer : LoadTimer) (loading : Bool) (t : Int) :
    (timer.setLoading loading t).1.loadingTime t = timer.loadingTime t := by
  obtain ⟨started, since, total, loads⟩ := timer
  cases since <;> cases loading <;> simp [LoadTimer.setLoading, loadingTime, Duration.between]

/-- The loading time grows with the clock while the game is loading, and it stands still while it is not. -/
private theorem loadingTime_later (h : timer.Begun start) (hle : start ≤ now) :
    timer.loadingTime now = timer.loadingTime start + if timer.isLoading then Duration.between start now else 0 := by
  obtain ⟨started, since, total, loads⟩ := timer
  cases since with
  | none => rfl
  | some since =>
    have hsplit := Duration.between_add (h since rfl) hle
    simp only [loadingTime, isLoading, Option.map_some, Option.getD_some, Option.isSome_some, ↓reduceIte]
    rw [hsplit, Nat.add_assoc]

/-! ### Several values -/

private theorem setAll_append (timer : LoadTimer) (calls more : List (Bool × Int)) :
    timer.setAll (calls ++ more) = (timer.setAll calls).setAll more := List.foldl_append

private theorem started_setAll (timer : LoadTimer) (calls : List (Bool × Int)) :
    (timer.setAll calls).started = timer.started := by
  induction calls generalizing timer with
  | nil => rfl
  | cons call rest ih =>
    refine (ih _).trans ?_
    obtain ⟨started, since, total, loads⟩ := timer
    obtain ⟨loading, t⟩ := call
    cases since <;> cases loading <;> rfl

private theorem isLoading_setAll (timer : LoadTimer) (calls : List (Bool × Int)) :
    (timer.setAll calls).isLoading = (calls.map (·.1)).getLast?.getD timer.isLoading := by
  induction calls generalizing timer with
  | nil => rfl
  | cons call rest ih =>
    refine (ih _).trans ?_
    rw [isLoading_setLoading, List.map_cons, List.getLast?_cons, Option.getD_some]

private theorem Begun.setAll (h : timer.Begun start) (hcalls : Timely start calls now) :
    (timer.setAll calls).Begun now := by
  induction calls generalizing timer start with
  | nil => exact fun since hsince => le_trans (h since hsince) hcalls
  | cons call rest ih =>
    have hlater : timer.Begun call.2 := fun since hsince => le_trans (h since hsince) hcalls.1
    exact ih (hlater.setLoading call.1) hcalls.2

/-- Every change from `false` to `true` counts as a load. -/
private theorem loads_setAll (timer : LoadTimer) (calls : List (Bool × Int)) :
    (timer.setAll calls).loads =
      timer.loads + ((timer.isLoading :: calls.map (·.1)).zip (calls.map (·.1))).count (false, true) := by
  induction calls generalizing timer with
  | nil => rfl
  | cons call rest ih =>
    refine (ih _).trans ?_
    rw [loads_setLoading, isLoading_setLoading, List.map_cons, List.zip_cons_cons, List.count_cons]
    simp only [beq_iff_eq]
    omega

/-- Up to any later instant the loading time grows by the number of instants at which the game is loading. -/
private theorem loadingTime_setAll (h : timer.Begun start) (hcalls : Timely start calls now) :
    (timer.setAll calls).loadingTime now =
      timer.loadingTime start + timeOf (recordedFrom timer.isLoading calls) start now := by
  induction calls generalizing timer start with
  | nil =>
    rw [show recordedFrom timer.isLoading [] = fun _ => timer.isLoading from rfl, timeOf_const]
    exact loadingTime_later h hcalls
  | cons call rest ih =>
    obtain ⟨loading, u⟩ := call
    obtain ⟨hle, hrest⟩ := hcalls
    have hbegun : timer.Begun u := fun since hsince => le_trans (h since hsince) hle
    have hrecorded := recordedFrom_cons hrest timer.isLoading loading
    -- up to the first value nothing is new, and from then on it is the value before the others
    have hbefore : timeOf (recordedFrom timer.isLoading ((loading, u) :: rest)) start u =
        timeOf (fun _ => timer.isLoading) start u :=
      timeOf_congr fun t _ htu => by rw [hrecorded, if_neg (by omega)]
    have hafter : timeOf (recordedFrom timer.isLoading ((loading, u) :: rest)) u now =
        timeOf (recordedFrom loading rest) u now :=
      timeOf_congr fun t hut _ => by rw [hrecorded, if_pos hut]
    have hlater := ih (hbegun.setLoading loading) hrest
    rw [isLoading_setLoading, loadingTime_setLoading, loadingTime_later h hle] at hlater
    rw [timeOf_add _ hle hrest.le, hbefore, hafter, timeOf_const, ← Nat.add_assoc]
    exact hlater

/-! ### The time of the game -/

/-- No subtraction that the timer makes at `t` falls short: neither its start nor that of a load is after `t`, and no
more time was spent loading than went by. -/
structure Exact (timer : LoadTimer) (t : Int) : Prop where
  started_le : timer.started ≤ t
  begun : timer.Begun t
  loading_le : timer.loadingTime t ≤ timer.realTime t

private theorem exact_start (t : Int) : ({ started := t } : LoadTimer).Exact t where
  started_le := le_refl t
  begun := nofun
  loading_le := Nat.zero_le _

private theorem Exact.setAll (h : timer.Exact start) (hcalls : Timely start calls now) :
    (timer.setAll calls).Exact now where
  started_le := by
    rw [started_setAll]
    exact le_trans h.started_le hcalls.le
  begun := h.begun.setAll hcalls
  loading_le := by
    have hreal := Duration.between_add h.started_le hcalls.le
    rw [loadingTime_setAll h.begun hcalls, realTime, started_setAll, hreal]
    exact Nat.add_le_add h.loading_le (timeOf_le _ start now)

private theorem Exact.realTime_eq (h : timer.Exact t) : timer.realTime t = timer.loadingTime t + timer.gameTime t :=
  (Nat.add_sub_of_le h.loading_le).symm

/-- Up to any later instant the time of the game grows by the number of instants at which the game is not loading. -/
private theorem Exact.gameTime_setAll (h : timer.Exact start) (hcalls : Timely start calls now) :
    (timer.setAll calls).gameTime now =
      timer.gameTime start + timeOf (! recordedFrom timer.isLoading calls ·) start now := by
  have hreal := Duration.between_add h.started_le hcalls.le
  have hnow := (h.setAll hcalls).realTime_eq
  rw [loadingTime_setAll h.begun hcalls, realTime, started_setAll, hreal] at hnow
  have hsplit := timeOf_add_not (recordedFrom timer.isLoading calls) start now
  have hstart : Duration.between timer.started start = _ := h.realTime_eq
  rw [hstart, ← hsplit] at hnow
  have hrest : ∀ loading game more others later : Nat,
      loading + game + (more + others) = loading + more + later → later = game + others := by omega
  exact hrest _ _ _ _ _ hnow

/-! ### A whole run -/

/-- The loading time is the length of the maximal intervals in which the game is loading. Every change of the signal
is noticed, and every one from `false` to `true` counts as a load. The time of the game is what remains of the real
time, and no subtraction falls short. Between two instants, with any values in between, it never shrinks: while the
game is loading it stands still, and while it is not it grows with the clock. -/
theorem times_add_up {started : Int} (h : Timely started calls now) :
    let timer : LoadTimer := { started }
    let last := timer.setAll calls
    last.loadingTime now =
        ∑ i ∈ maximalIntervals (recordedAt calls) started now, Duration.between i.1 i.2 ∧
      last.loads = ((false :: calls.map (·.1)).zip (calls.map (·.1))).count (false, true) ∧
      (∀ before loading t after, calls = before ++ (loading, t) :: after →
        (((timer.setAll before).setLoading loading t).2 = true ↔
          loading ≠ (before.map (·.1)).getLast?.getD false)) ∧
      (last.Exact now ∧ last.realTime now = last.loadingTime now + last.gameTime now ∧
        (last.realTime now : Int) = now - started) ∧
      ∀ before more t, calls = before ++ more → Timely started before t → Timely t more now →
        (timer.setAll before).gameTime t ≤ last.gameTime now ∧
          ((∀ u, t ≤ u → u < now → recordedAt calls u = true) →
            last.gameTime now = (timer.setAll before).gameTime t) ∧
          ((∀ u, t ≤ u → u < now → recordedAt calls u = false) →
            last.gameTime now = (timer.setAll before).gameTime t + Duration.between t now) := by
  intro timer last
  have hexact : last.Exact now := (exact_start started).setAll h
  refine ⟨?_, ?_, ?_, ⟨hexact, hexact.realTime_eq, ?_⟩, ?_⟩
  · have hloading := loadingTime_setAll (exact_start started).begun h
    have hnothing : timer.loadingTime started = 0 := rfl
    rw [sum_maximalIntervals]
    rw [hnothing, Nat.zero_add] at hloading
    exact hloading
  · have hloads := timer.loads_setAll calls
    rw [show timer.loads = 0 from rfl, Nat.zero_add] at hloads
    exact hloads
  · intro before loading t after _
    rw [changed_setLoading, isLoading_setAll]
    rfl
  · have hle := h.le
    change ((now - last.started).toNat : Int) = now - started
    rw [show last.started = started from timer.started_setAll calls]
    omega
  · rintro before more t hsplit hbefore hmore
    have hgame := ((exact_start started).setAll hbefore).gameTime_setAll hmore
    rw [← setAll_append, ← hsplit] at hgame
    -- from `t` on, the values before it count no more than the last of them
    have hrecorded : ∀ u, t ≤ u → recordedFrom (timer.setAll before).isLoading more u = recordedAt calls u := by
      intro u htu
      rw [hsplit, recordedAt, recordedFrom_append fun call hcall => le_trans (hbefore.le_of_mem hcall).2 htu,
        isLoading_setAll]
      rfl
    have hsteady : ∀ value, (∀ u, t ≤ u → u < now → recordedAt calls u = value) →
        last.gameTime now = (timer.setAll before).gameTime t + if ! value then Duration.between t now else 0 := by
      intro value hvalue
      have hconst : timeOf (! recordedFrom (timer.setAll before).isLoading more ·) t now =
          timeOf (fun _ => ! value) t now :=
        timeOf_congr fun u htu hun => by rw [hrecorded u htu, hvalue u htu hun]
      rw [hgame, hconst, timeOf_const]
    exact ⟨le_of_le_of_eq (Nat.le_add_right _ _) hgame.symm, hsteady true, hsteady false⟩

/-- Two loads, with a value in the first that changes nothing: they last three and two units, and three are left. -/
theorem times_add_up_two_loads :
    let calls := [(true, 1), (true, 2), (false, 4), (true, 6)]
    let last := ({ started := 0 } : LoadTimer).setAll calls
    Timely 0 calls 8 ∧ ∑ i ∈ maximalIntervals (recordedAt calls) 0 8, Duration.between i.1 i.2 = 5 ∧
      last.loads = 2 ∧ last.realTime 8 = 5 + last.gameTime 8 ∧ last.gameTime 8 = 3 := by
  intro calls last
  have h : Timely 0 calls 8 := by simp [calls, Timely]
  obtain ⟨hloading, hloads, -, ⟨-, hreal, -⟩, -⟩ := times_add_up h
  exact ⟨h, hloading.symm, hloads, hreal, rfl⟩

end LoadTimer

end LoadRemover
